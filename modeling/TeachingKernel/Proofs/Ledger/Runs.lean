import TeachingKernel.Proofs.Ledger.Keeps
import TeachingKernel.Proofs.Pool.History
import TeachingKernel.Proofs.Ring.Integrity

/-!
# Runs of a ledger

Whatever is asked of a ledger, and in whatever order, it answers without a defect and goes on
keeping a list of loans. Its books balance after every run and its ring is sound.
-/

namespace TeachingKernel.FrameLedger

inductive Operation (σ : Type) where
  | lend (holder : Holder) (bits : σ)
  | share (frame : PhysAddr) (holder : Holder)
  | release (pid : Pid) (frame : PhysAddr)
  | releaseMapping (holder : Holder) (frame : PhysAddr)
  | releaseAll (pid : Pid)
  | pickVictim (bits : σ)
  | advance (ticks : Nat)

variable {σ : Type} [UseBits σ]

def Operation.perform (op : Operation σ) (l : FrameLedger) : Checked FrameLedger :=
  match op with
  | lend holder bits => do return (← l.lend holder bits).2.1
  | share frame holder => do
    match ← l.share frame holder with
    | .ok l => return l
    | .error _ => return l
  | release pid frame => do return (← l.release pid frame).2
  | releaseMapping holder frame => do return (← l.releaseMapping holder frame).2
  | releaseAll pid => do return (← l.releaseAll pid).2
  | pickVictim bits => do return (← l.pickVictim bits).2.1
  | advance ticks => return l.advance ticks

def performAll : List (Operation σ) → FrameLedger → Checked FrameLedger
  | [], l => return l
  | op :: ops, l => do performAll ops (← op.perform l)

variable {l : FrameLedger} {es : List (Nat × Loan)}

/-- To let go of a frame, whoever does it, leaves a list of loans. -/
theorem Keeps.exists_releaseWhere (h : l.Keeps es) (frame : PhysAddr) (test : Holder → Bool) :
    ∃ answer l' es', l.releaseWhere frame test = .ok (answer, l') ∧ l'.Keeps es' ∧
      l'.pool.total = l.pool.total := by
  rcases h.releaseWhere frame test with ⟨hrun, _⟩ | ⟨xs, slot, loan, ys, rfl, _, hrun⟩
  · exact ⟨_, l, es, hrun, h, rfl⟩
  · rcases h.letGo test with ⟨hgo, _⟩ | ⟨_, ⟨loans', _, hgo, hk⟩ | ⟨i, loans', _, _, hgo, hk⟩⟩
    · exact ⟨_, l, _, hrun.trans hgo, h, rfl⟩
    · exact ⟨_, _, _, hrun.trans hgo, hk, rfl⟩
    · exact ⟨_, _, _, hrun.trans hgo, hk, rfl⟩

/-- One operation. -/
theorem Keeps.perform (h : l.Keeps es) (op : Operation σ) :
    ∃ l' es', op.perform l = .ok l' ∧ l'.Keeps es' ∧ l'.pool.total = l.pool.total := by
  cases op with
  | lend holder bits =>
    rcases h.lend holder bits with ⟨hrun, _⟩ | ⟨i, slot, loans', _, _, hrun, hk⟩ |
      ⟨victim, l', bits', es', _, _, hpick, hrun⟩
    · refine ⟨l, es, ?_, h, rfl⟩
      simp only [Operation.perform, hrun, bind, Except.bind, pure, Except.pure]
    · refine ⟨l.entered i loans', _, ?_, hk, rfl⟩
      simp only [Operation.perform, hrun, bind, Except.bind, pure, Except.pure]
    · refine ⟨l', es', ?_, hpick.keeps, congrArg PagePool.total hpick.pool_eq⟩
      simp only [Operation.perform, hrun, bind, Except.bind, pure, Except.pure]
  | share frame holder =>
    rcases h.share frame holder with ⟨hrun, _⟩ | ⟨hrun, _⟩ |
      ⟨xs, slot, loan, ys, loans', _, _, _, hrun, hk⟩
    · refine ⟨l, es, ?_, h, rfl⟩
      simp only [Operation.perform, hrun, bind, Except.bind, pure, Except.pure]
    · refine ⟨l, es, ?_, h, rfl⟩
      simp only [Operation.perform, hrun, bind, Except.bind, pure, Except.pure]
    · refine ⟨{ l with loans := loans' }, _, ?_, hk, rfl⟩
      simp only [Operation.perform, hrun, bind, Except.bind, pure, Except.pure]
  | release pid frame =>
    obtain ⟨_, l', es', hrun, hk, ht⟩ := h.exists_releaseWhere frame (·.pid = pid)
    refine ⟨l', es', ?_, hk, ht⟩
    simp only [Operation.perform, FrameLedger.release, hrun, bind, Except.bind, pure, Except.pure]
  | releaseMapping holder frame =>
    obtain ⟨_, l', es', hrun, hk, ht⟩ := h.exists_releaseWhere frame (· = holder)
    refine ⟨l', es', ?_, hk, ht⟩
    simp only [Operation.perform, FrameLedger.releaseMapping, hrun, bind, Except.bind, pure,
      Except.pure]
  | releaseAll pid =>
    obtain ⟨l', hrun, hk, _, _, hs⟩ := h.releaseAll pid
    refine ⟨l', _, ?_, hk, hs.total_eq⟩
    simp only [Operation.perform, hrun, bind, Except.bind, pure, Except.pure]
  | pickVictim bits =>
    obtain ⟨_, l', _, es', hpick⟩ := h.pickVictim bits
    refine ⟨l', es', ?_, hpick.keeps, congrArg PagePool.total hpick.pool_eq⟩
    simp only [Operation.perform, hpick.run, bind, Except.bind, pure, Except.pure]
  | advance ticks => exact ⟨_, es, rfl, h.advance ticks, rfl⟩

/-- Any number of operations. -/
theorem Keeps.performAll (h : l.Keeps es) (ops : List (Operation σ)) :
    ∃ l' es', FrameLedger.performAll ops l = .ok l' ∧ l'.Keeps es' ∧
      l'.pool.total = l.pool.total := by
  induction ops generalizing l es with
  | nil => exact ⟨l, es, rfl, h, rfl⟩
  | cons op ops ih =>
    obtain ⟨l₁, es₁, hrun, hk, ht⟩ := h.perform op
    obtain ⟨l₂, es₂, hrun', hk', ht'⟩ := ih hk
    refine ⟨l₂, es₂, ?_, hk', ht'.trans ht⟩
    simp only [FrameLedger.performAll, hrun, bind, Except.bind, hrun']

/-- A ledger of a fresh pool keeps no loan. -/
theorem keeps_create {base : PhysAddr} {total : Nat} {pool : PagePool}
    (hp : PagePool.create base total = .ok pool)
    (hfits : base.toNat + total * pageSize ≤ addressBound) (policy : Policy) :
    (fresh pool policy).Keeps [] ∧ pool.total = total := by
  unfold PagePool.create at hp
  split at hp
  · rename_i ha
    cases hp
    exact ⟨keeps_fresh (PagePool.sound_fresh ha hfits) rfl policy, rfl⟩
  · contradiction

inductive Reached (σ : Type) [UseBits σ] : FrameLedger → Prop
  | fresh {base : PhysAddr} {total : Nat} {pool : PagePool}
      (hp : PagePool.create base total = .ok pool)
      (hfits : base.toNat + total * pageSize ≤ addressBound) (policy : Policy) :
      Reached σ (FrameLedger.fresh pool policy)
  | perform {l l' : FrameLedger} (hr : Reached σ l) (op : Operation σ)
      (hrun : op.perform l = .ok l') : Reached σ l'
  | store {l : FrameLedger} {pool : PagePool} (hr : Reached σ l) (a : PhysAddr) (start : Nat)
      (src : Bytes) (hrun : l.pool.write? a start src = .ok (some pool)) :
      Reached σ { l with pool }

theorem Reached.performAll {l' : FrameLedger} {ops : List (Operation σ)} (hr : Reached σ l)
    (hrun : FrameLedger.performAll ops l = .ok l') : Reached σ l' := by
  induction ops generalizing l with
  | nil =>
    cases hrun
    exact hr
  | cons op ops ih =>
    unfold FrameLedger.performAll at hrun
    cases hop : op.perform l with
    | error d =>
      rw [hop] at hrun
      contradiction
    | ok l₁ =>
      rw [hop] at hrun
      exact ih (hr.perform op hop) hrun

/-- Every ledger that comes about keeps its loans. -/
theorem Reached.keeps (hr : Reached σ l) : ∃ es, l.Keeps es := by
  induction hr with
  | fresh hp hfits policy => exact ⟨[], (keeps_create hp hfits policy).1⟩
  | perform _ op hrun ih =>
    obtain ⟨es, hk⟩ := ih
    obtain ⟨l', es', hrun', hk', _⟩ := hk.perform op
    cases hrun'.symm.trans hrun
    exact ⟨es', hk'⟩
  | store _ a start src hrun ih =>
    obtain ⟨es, hk⟩ := ih
    obtain ⟨pages, rfl⟩ := PagePool.sameUse_of_write? hrun
    exact ⟨es, hk.setPages pages⟩

/-! ## The books -/

theorem Keeps.toList (h : l.Keeps es) : l.toList = .ok (es.map Prod.snd) := h.ring.toList

theorem Keeps.size_eq (h : l.Keeps es) : l.size = (es.map Prod.snd).length := by
  rw [List.length_map]
  exact h.ring.size_eq

/-- A page is in use exactly if the ledger contains it. -/
theorem Keeps.inUse_iff (h : l.Keeps es) (a : PhysAddr) :
    l.pool.inUse a = true ↔ l.contains a.pageStart = .ok true := by
  rw [h.books.inUse_iff]
  rcases slot?_cases h.ring a.pageStart with ⟨hslot, hf⟩ | ⟨xs, slot, loan, ys, rfl, hf, hslot⟩
  · simp only [contains, hslot, bind, Except.bind, pure, Except.pure, Option.isSome_none,
      Except.ok.injEq, Bool.false_eq_true, iff_false]
    rintro ⟨loan, hm, hl⟩
    obtain ⟨e, he, rfl⟩ := List.mem_map.mp hm
    exact hf e he hl
  · simp only [contains, hslot, bind, Except.bind, pure, Except.pure, Option.isSome_some, iff_true]
    exact ⟨loan, by simp, hf⟩

structure SameLoans (l l' : FrameLedger) : Prop where
  entries_eq : l'.loans.entries = l.loans.entries
  hand_eq : l'.loans.hand = l.loans.hand
  size_eq : l'.size = l.size
  base_eq : l'.pool.base = l.pool.base
  total_eq : l'.pool.total = l.pool.total
  free_eq : l'.pool.free = l.pool.free
  inUse_eq : ∀ a, l'.pool.inUse a = l.pool.inUse a

/-- Which frames are handed out can be told by the loans. -/
theorem Keeps.sameLoans {l' : FrameLedger} (h : l.Keeps es) (h' : l'.Keeps es)
    (hb : l'.pool.base = l.pool.base) (ht : l'.pool.total = l.pool.total) : SameLoans l l' where
  entries_eq := by rw [h.ring.entries, h'.ring.entries]
  hand_eq := by rw [h.ring.hand_eq, h'.ring.hand_eq]
  size_eq := by rw [h.size_eq, h'.size_eq]
  base_eq := hb
  total_eq := ht
  free_eq := by
    have hfree := h.books.free_add_length
    have hfree' := h'.books.free_add_length
    omega
  inUse_eq a := by rw [Bool.eq_iff_iff, h.books.inUse_iff, h'.books.inUse_iff]

/-- All frames are lent exactly if none is free. -/
theorem Keeps.size_eq_total_iff (h : l.Keeps es) : l.size = l.pool.total ↔ l.pool.free = 0 := by
  have := h.books.free_add_length
  rw [h.size_eq]
  omega

/-- Who holds no frame at the address is lent one, unless all are lent. Then a victim is named, if
the pool has any frame. -/
theorem Keeps.lend_answer (h : l.Keeps es) {holder : Holder} (hn : ∀ e ∈ es, holder ∉ e.2.holders)
    (bits : σ) :
    ∃ answer l' bits', l.lend holder bits = .ok (answer, l', bits') ∧
      ((∃ frame, answer = .ok frame) ↔ l.size ≠ l.pool.total) ∧
      ((∃ victim, answer = .error (.outOfFrames victim)) ↔ l.size = l.pool.total) ∧
      ∀ victim, answer = .error (.outOfFrames victim) → (victim = none ↔ l.pool.total = 0) := by
  have hcount := h.books.free_add_length
  rcases h.lend holder bits with ⟨_, e, he, hc⟩ | ⟨i, slot, loans', hi, _, hrun, hk⟩ |
    ⟨victim, l', bits', _, hz, _, hpick, hrun⟩
  · exact absurd hc (hn e he)
  · have hfree : l.pool.free ≠ 0 := by
      intro hz
      have hall := (PagePool.lowestFree?_eq_none_iff_free h.books.sound).mpr hz
      rw [l.pool.lowestFree?_eq_none_iff.mp hall i] at hi
      contradiction
    refine ⟨_, _, _, hrun, ?_, ?_, ?_⟩
    · rw [ne_eq, h.size_eq_total_iff]
      exact ⟨fun _ => hfree, fun _ => ⟨_, rfl⟩⟩
    · rw [h.size_eq_total_iff]
      exact ⟨by rintro ⟨_, ⟨⟩⟩, fun hc => absurd hc hfree⟩
    · rintro _ ⟨⟩
  · refine ⟨_, _, _, hrun, ?_, ?_, ?_⟩
    · rw [ne_eq, h.size_eq_total_iff]
      exact ⟨by rintro ⟨_, ⟨⟩⟩, fun hc => absurd hz hc⟩
    · rw [h.size_eq_total_iff]
      exact ⟨fun _ => hz, fun _ => ⟨_, rfl⟩⟩
    · rintro _ ⟨⟩
      rw [hpick.eq_none_iff, ← hcount, hz, Nat.zero_add, List.length_map, List.length_eq_zero_iff]

/-- The books of a ledger balance after every run, and the run meets no defect. -/
theorem books_balance_after_performAll {base : PhysAddr} {total : Nat} {pool : PagePool}
    (hp : PagePool.create base total = .ok pool)
    (hfits : base.toNat + total * pageSize ≤ addressBound) (policy : Policy)
    (ops : List (Operation σ)) :
    ∃ l loans, FrameLedger.performAll ops (fresh pool policy) = .ok l ∧ l.toList = .ok loans ∧
      (∀ loan ∈ loans, loan.holders ≠ []) ∧ (loans.flatMap Loan.holders).Nodup ∧
      (loans.map Loan.frame).Nodup ∧
      (∀ a, l.pool.inUse a = true ↔ l.contains a.pageStart = .ok true) ∧
      l.pool.total = total ∧ l.pool.free + l.size = total ∧
      l.stats.lent = l.stats.returned + l.size ∧ (∀ loan ∈ loans, loan.lastUsed ≤ l.epoch) ∧
      ∀ holder bits, (∀ loan ∈ loans, holder ∉ loan.holders) →
        ∃ answer l' bits', l.lend holder (bits : σ) = .ok (answer, l', bits') ∧
          ((∃ frame, answer = .ok frame) ↔ l.size ≠ total) ∧
          ((∃ victim, answer = .error (.outOfFrames victim)) ↔ l.size = total) ∧
          ∀ victim, answer = .error (.outOfFrames victim) → (victim = none ↔ total = 0) := by
  obtain ⟨hk, rfl⟩ := keeps_create hp hfits policy
  obtain ⟨l, es, hrun, hk', ht⟩ := hk.performAll ops
  have ht' : l.pool.total = pool.total := ht
  rw [← ht']
  have hb := hk'.books
  refine ⟨l, es.map Prod.snd, hrun, hk'.toList, hb.held, hb.holders_nodup, hb.frames_nodup,
    hk'.inUse_iff, rfl, ?_, ?_, hb.used, ?_⟩
  · rw [hk'.size_eq]
    exact hb.free_add_length
  · rw [hk'.size_eq]
    exact hb.balance
  · intro holder bits hn
    exact hk'.lend_answer (fun e he => hn e.2 (List.mem_map_of_mem he)) bits

/-- Two frames are lent, one of them twice over, a third is asked for, and one process goes. -/
theorem books_balance_of_two_frames :
    PagePool.create (.ofNat poolBase) 2 = .ok (PagePool.user 2) ∧
      (Address.ofNat poolBase : PhysAddr).toNat + 2 * pageSize ≤ addressBound ∧
      ∃ l loans, FrameLedger.performAll
          [.lend ⟨⟨1⟩, .ofNat 0x1000⟩ ({} : UseSets), .lend ⟨⟨2⟩, .ofNat 0x1000⟩ {},
            .share (.ofNat poolBase) ⟨⟨2⟩, .ofNat 0x2000⟩, .lend ⟨⟨2⟩, .ofNat 0x3000⟩ {},
            .releaseAll ⟨1⟩]
          (fresh (PagePool.user 2) .clock) = .ok l ∧
        l.toList = .ok loans ∧ (∀ loan ∈ loans, loan.holders ≠ []) ∧
        (loans.flatMap Loan.holders).Nodup ∧ l.pool.free + l.size = 2 := by
  have hp : PagePool.create (.ofNat poolBase) 2 = .ok (PagePool.user 2) := rfl
  have hfits : (Address.ofNat poolBase : PhysAddr).toNat + 2 * pageSize ≤ addressBound := by decide
  obtain ⟨l, loans, hrun, hl, hheld, hnodup, _, _, _, hcount, _⟩ :=
    books_balance_after_performAll hp hfits .clock
      [.lend ⟨⟨1⟩, .ofNat 0x1000⟩ ({} : UseSets), .lend ⟨⟨2⟩, .ofNat 0x1000⟩ {},
        .share (.ofNat poolBase) ⟨⟨2⟩, .ofNat 0x2000⟩, .lend ⟨⟨2⟩, .ofNat 0x3000⟩ {},
        .releaseAll ⟨1⟩]
  exact ⟨hp, hfits, l, loans, hrun, hl, hheld, hnodup, hcount⟩

/-! ## The ring -/

/-- The ring of a ledger is sound after every run, and what is read of it is what its live slots
hold. -/
theorem ring_intact_after_performAll {base : PhysAddr} {total : Nat} {pool : PagePool}
    (hp : PagePool.create base total = .ok pool)
    (hfits : base.toNat + total * pageSize ≤ addressBound) (policy : Policy)
    (ops : List (Operation σ)) :
    ∃ l es, FrameLedger.performAll ops (fresh pool policy) = .ok l ∧ l.loans.Intact ∧
      l.loans.entries = .ok es ∧ es.length = l.size ∧ (es.map Prod.fst).Nodup ∧
      (∀ slot loan, (slot, loan) ∈ es ↔ ∃ n, l.loans.node slot = .ok n ∧ n.value = loan) ∧
      (∀ frame, ∃ found, l.slot? frame = .ok found ∧
        (found = none ↔ ∀ slot n, l.loans.node slot = .ok n → n.value.frame ≠ frame) ∧
        ∀ slot, found = some slot → ∃ n, l.loans.node slot = .ok n ∧ n.value.frame = frame) ∧
      ∀ holder, ∃ found, l.slotHeld? holder = .ok found ∧
        (found = none ↔ ∀ slot n, l.loans.node slot = .ok n → holder ∉ n.value.holders) ∧
        ∀ slot, found = some slot → ∃ n, l.loans.node slot = .ok n ∧ holder ∈ n.value.holders := by
  obtain ⟨hk, _⟩ := keeps_create hp hfits policy
  obtain ⟨l, es, hrun, hk', _⟩ := hk.performAll ops
  have hr := hk'.ring
  refine ⟨l, es, hrun, hr.intact, hr.entries, hr.size_eq.symm, hr.nodup, fun _ _ => hr.mem_iff, ?_,
    ?_⟩
  · intro frame
    obtain ⟨found, hf, hnone, hsome⟩ := hr.find?_spec fun loan => loan.frame = frame
    refine ⟨found, hf, ?_, ?_⟩
    · simpa using hnone
    · simpa using hsome
  · intro holder
    obtain ⟨found, hf, hnone, hsome⟩ := hr.find?_spec fun loan => holder ∈ loan.holders
    refine ⟨found, hf, ?_, ?_⟩
    · simpa using hnone
    · simpa using hsome

/-- The hand moves past a victim, and the middle one of three loans ends. -/
theorem ring_intact_of_three_frames :
    PagePool.create (.ofNat poolBase) 3 = .ok (PagePool.user 3) ∧
      (Address.ofNat poolBase : PhysAddr).toNat + 3 * pageSize ≤ addressBound ∧
      ∃ l es, FrameLedger.performAll
          [.lend ⟨⟨1⟩, .ofNat 0x1000⟩ ({} : UseSets), .lend ⟨⟨2⟩, .ofNat 0x1000⟩ {},
            .lend ⟨⟨3⟩, .ofNat 0x1000⟩ {}, .pickVictim {}, .releaseAll ⟨2⟩]
          (fresh (PagePool.user 3) (.workingSet 1)) = .ok l ∧
        l.loans.Intact ∧ l.loans.entries = .ok es ∧ es.length = l.size := by
  have hp : PagePool.create (.ofNat poolBase) 3 = .ok (PagePool.user 3) := rfl
  have hfits : (Address.ofNat poolBase : PhysAddr).toNat + 3 * pageSize ≤ addressBound := by decide
  obtain ⟨l, es, hrun, hintact, hes, hsize, _⟩ :=
    ring_intact_after_performAll hp hfits (.workingSet 1)
      [.lend ⟨⟨1⟩, .ofNat 0x1000⟩ ({} : UseSets), .lend ⟨⟨2⟩, .ofNat 0x1000⟩ {},
        .lend ⟨⟨3⟩, .ofNat 0x1000⟩ {}, .pickVictim {}, .releaseAll ⟨2⟩]
  exact ⟨hp, hfits, l, es, hrun, hintact, hes, hsize⟩

end TeachingKernel.FrameLedger
