import TeachingKernel.Proofs.Ledger.Books

/-!
# What a ledger keeps

A ledger keeps a list of loans: its ring holds them in this order from the hand, and its books
balance. Each operation of the ledger turns one such list into another and answers without a defect.
For each of them one lemma says which list that is.
-/

namespace TeachingKernel

/-- The loan after a process let go of the frame at every address. -/
def Loan.without (loan : Loan) (pid : Pid) : Loan :=
  { loan with holders := loan.holders.filter (·.pid ≠ pid) }

/-- The process is the only one that holds the frame. -/
def Loan.onlyHeldBy (loan : Loan) (pid : Pid) : Bool := loan.holders.all (·.pid = pid)

namespace FrameLedger

/-- The loans, each in its slot, from the hand on. -/
structure Keeps (l : FrameLedger) (es : List (Nat × Loan)) : Prop where
  ring : l.loans.Holds es
  books : Balanced l.pool l.stats l.epoch (es.map Prod.snd)

/-- The loans after a process let go of all its frames. -/
def dismiss (pid : Pid) (es : List (Nat × Loan)) : List (Nat × Loan) :=
  (es.filter fun e => !e.2.onlyHeldBy pid).map fun e => (e.1, e.2.without pid)

variable {l : FrameLedger} {es xs ys : List (Nat × Loan)} {slot : Nat} {loan : Loan}
  {holder : Holder} {frame : PhysAddr}

theorem keeps_fresh {pool : PagePool} (h : pool.Sound) (he : pool.taken = .empty)
    (policy : Policy) : (fresh pool policy).Keeps [] where
  ring := CircularList.holds_empty
  books := .fresh h he

theorem Keeps.advance (h : l.Keeps es) (ticks : Nat) : (l.advance ticks).Keeps es where
  ring := h.ring
  books := h.books.advance (Nat.le_add_right _ _)

/-! ## Looking a loan up -/

theorem slot?_cases (h : l.loans.Holds es) (frame : PhysAddr) :
    (l.slot? frame = .ok none ∧ ∀ e ∈ es, e.2.frame ≠ frame) ∨
      ∃ xs slot loan ys, es = xs ++ (slot, loan) :: ys ∧ loan.frame = frame ∧
        l.slot? frame = .ok (some slot) := by
  obtain ⟨found, hf⟩ : ∃ found, l.slot? frame = .ok found := ⟨_, h.find? _⟩
  cases found with
  | none =>
    left
    refine ⟨hf, fun e he => ?_⟩
    simpa using h.find?_none hf e he
  | some slot =>
    right
    obtain ⟨xs, loan, ys, rfl, ht⟩ := h.find?_some hf
    exact ⟨xs, slot, loan, ys, rfl, by simpa using ht, hf⟩

theorem slotHeld?_cases (h : l.loans.Holds es) (holder : Holder) :
    (l.slotHeld? holder = .ok none ∧ ∀ e ∈ es, holder ∉ e.2.holders) ∨
      ∃ slot loan, (slot, loan) ∈ es ∧ holder ∈ loan.holders ∧
        l.slotHeld? holder = .ok (some slot) := by
  obtain ⟨found, hf⟩ : ∃ found, l.slotHeld? holder = .ok found := ⟨_, h.find? _⟩
  cases found with
  | none =>
    left
    refine ⟨hf, fun e he => ?_⟩
    simpa using h.find?_none hf e he
  | some slot =>
    right
    obtain ⟨xs, loan, ys, rfl, ht⟩ := h.find?_some hf
    exact ⟨slot, loan, by simp, by simpa using ht, hf⟩

/-! ## Lending and sharing -/

def entered (l : FrameLedger) (i : Fin l.pool.total) (loans : CircularList Loan) : FrameLedger :=
  { l with
    pool := l.pool.handOut i
    loans := loans
    epoch := l.epoch + 1
    stats := { l.stats with lent := l.stats.lent + 1 } }

theorem Keeps.enter (h : l.Keeps es) {i : Fin l.pool.total}
    (hi : l.pool.taken.contains i = false) (hn : ∀ e ∈ es, holder ∉ e.2.holders) :
    ∃ slot loans',
      FrameLedger.enter { l with pool := l.pool.handOut i } (l.pool.frameAddress i) holder =
        .ok (l.entered i loans') ∧
      (l.entered i loans').Keeps
        (es ++ [(slot, ⟨l.pool.frameAddress i, [holder], l.epoch + 1, false⟩)]) := by
  obtain ⟨slot, loans', hm, hr⟩ :=
    h.ring.insert ⟨l.pool.frameAddress i, [holder], l.epoch + 1, false⟩
  refine ⟨slot, loans', ?_, hr, ?_⟩
  · simp only [FrameLedger.enter, hm, bind, Except.bind, pure, Except.pure, entered]
  · have hn' : holder ∉ (es.map Prod.snd).flatMap Loan.holders := by
      simpa [List.flatMap_map] using hn
    rw [List.map_append]
    exact h.books.enter hi hn'

/-- Sharing is refused to a holder that holds a frame at the address, and where the frame is not
lent; else the holder comes after the others. -/
theorem Keeps.share (h : l.Keeps es) (frame : PhysAddr) (holder : Holder) :
    (l.share frame holder = .ok (.error (.duplicateReference holder)) ∧
        ∃ e ∈ es, holder ∈ e.2.holders) ∨
      (l.share frame holder = .ok (.error (.notTracked frame)) ∧
        (∀ e ∈ es, holder ∉ e.2.holders) ∧ ∀ e ∈ es, e.2.frame ≠ frame) ∨
      ∃ xs slot loan ys loans', es = xs ++ (slot, loan) :: ys ∧ loan.frame = frame ∧
        (∀ e ∈ es, holder ∉ e.2.holders) ∧
        l.share frame holder = .ok (.ok { l with loans := loans' }) ∧
        Keeps { l with loans := loans' }
          (xs ++ (slot, { loan with holders := loan.holders ++ [holder] }) :: ys) := by
  rcases slotHeld?_cases h.ring holder with ⟨hheld, hn⟩ | ⟨slot, loan, hm, hl, hheld⟩
  · right
    rcases slot?_cases h.ring frame with ⟨hslot, hf⟩ | ⟨xs, slot, loan, ys, rfl, hf, hslot⟩
    · left
      refine ⟨?_, hn, hf⟩
      simp only [FrameLedger.share, hheld, hslot, bind, Except.bind, pure, Except.pure,
        Option.isSome_none, Bool.false_eq_true, if_false]
    · right
      obtain ⟨loans', hm, hr⟩ := h.ring.modify
        (fun loan : Loan => { loan with holders := loan.holders ++ [holder] })
      refine ⟨xs, slot, loan, ys, loans', rfl, hf, hn, ?_, hr, ?_⟩
      · simp only [FrameLedger.share, hheld, hslot, hm, bind, Except.bind, pure, Except.pure,
          Option.isSome_none, Bool.false_eq_true, if_false]
      · have hb := h.books
        have hn' : holder ∉ ((xs ++ (slot, loan) :: ys).map Prod.snd).flatMap Loan.holders := by
          rw [List.flatMap_map, List.mem_flatMap]
          rintro ⟨e, he, hc⟩
          exact hn e he hc
        rw [List.map_append, List.map_cons] at hb hn' ⊢
        exact hb.join hn'
  · left
    refine ⟨?_, (slot, loan), hm, hl⟩
    simp only [FrameLedger.share, hheld, bind, Except.bind, pure, Except.pure, Option.isSome_some,
      if_true]

/-! ## Letting go -/

def closed (l : FrameLedger) (i : Fin l.pool.total) (loans : CircularList Loan) : FrameLedger :=
  { l with
    pool := l.pool.takeBack i
    loans := loans
    stats := { l.stats with returned := l.stats.returned + 1 } }

/-- When the holders of a loan are gone the loan ends. The books still show the holders, the ring
does not. -/
theorem Keeps.close (h : l.Keeps (xs ++ (slot, loan) :: ys)) {loans : CircularList Loan}
    {emptied : Loan} (hr : loans.Holds (xs ++ (slot, emptied) :: ys))
    (hf : emptied.frame = loan.frame) :
    ∃ i loans', loan.frame = l.pool.frameAddress i ∧
      FrameLedger.close { l with loans } slot = .ok (loan.frame, l.closed i loans') ∧
      (l.closed i loans').Keeps (xs ++ ys) := by
  obtain ⟨loans', hm, hr'⟩ := hr.remove
  have hb := h.books
  rw [List.map_append, List.map_cons] at hb
  obtain ⟨i, hi, hfi, hb'⟩ := hb.close
  have hrel := PagePool.release_of_taken hb.sound hi
  rw [← hfi] at hrel
  refine ⟨i, loans', hfi, ?_, hr', ?_⟩
  · simp only [FrameLedger.close, hm, hrel, bind, Except.bind, pure, Except.pure, hf, closed]
  · rw [List.map_append]
    exact hb'

/-- To let go of a frame takes the first holder that passes the test off the loan; the loan ends
with the last holder. -/
theorem Keeps.letGo (h : l.Keeps (xs ++ (slot, loan) :: ys)) (test : Holder → Bool) :
    (l.letGo slot test = .ok (.notReferenced, l) ∧ ∀ holder ∈ loan.holders, test holder = false) ∨
      (∃ holder ∈ loan.holders, test holder = true) ∧
        ((∃ loans', loan.holders.eraseP test ≠ [] ∧
            l.letGo slot test =
              .ok (.shared (loan.holders.eraseP test).length, { l with loans := loans' }) ∧
            Keeps { l with loans := loans' }
              (xs ++ (slot, { loan with holders := loan.holders.eraseP test }) :: ys)) ∨
          ∃ i loans', loan.holders.eraseP test = [] ∧ loan.frame = l.pool.frameAddress i ∧
            l.letGo slot test = .ok (.freed, l.closed i loans') ∧
            (l.closed i loans').Keeps (xs ++ ys)) := by
  obtain ⟨n, hn, rfl⟩ := h.ring.node_of_mem (List.mem_append_right xs List.mem_cons_self)
  by_cases hany : n.value.holders.any test = true
  · right
    refine ⟨List.any_eq_true.mp hany, ?_⟩
    obtain ⟨loans₁, hm, hr⟩ := h.ring.modify
      (fun loan : Loan => { loan with holders := n.value.holders.eraseP test })
    by_cases hrest : n.value.holders.eraseP test = []
    · right
      obtain ⟨i, loans', hf, hc, hk⟩ := h.close hr rfl
      refine ⟨i, loans', hrest, hf, ?_, hk⟩
      rw [hrest] at hm
      simp only [FrameLedger.letGo, hn, hany, hrest, hm, hc, bind, Except.bind, pure, Except.pure,
        Bool.not_true, Bool.false_eq_true, if_false, List.isEmpty_nil, if_true]
    · left
      refine ⟨loans₁, hrest, ?_, hr, ?_⟩
      · simp only [FrameLedger.letGo, hn, hany, hm, bind, Except.bind, pure, Except.pure,
          Bool.not_true, Bool.false_eq_true, if_false, List.isEmpty_iff, hrest]
      · have hb := h.books
        rw [List.map_append, List.map_cons] at hb ⊢
        exact hb.thin (List.eraseP_sublist) hrest
  · left
    constructor
    · simp only [FrameLedger.letGo, hn, hany, bind, Except.bind, pure, Except.pure, Bool.not_false,
        if_true]
    · simpa using hany

/-- To let go of a frame that is not lent does nothing. -/
theorem Keeps.releaseWhere (h : l.Keeps es) (frame : PhysAddr) (test : Holder → Bool) :
    (l.releaseWhere frame test = .ok (.untracked, l) ∧ ∀ e ∈ es, e.2.frame ≠ frame) ∨
      ∃ xs slot loan ys, es = xs ++ (slot, loan) :: ys ∧ loan.frame = frame ∧
        l.releaseWhere frame test = l.letGo slot test := by
  rcases slot?_cases h.ring frame with ⟨hslot, hf⟩ | ⟨xs, slot, loan, ys, rfl, hf, hslot⟩
  · left
    constructor
    · simp only [FrameLedger.releaseWhere, hslot, bind, Except.bind, pure, Except.pure]
    · exact hf
  · right
    refine ⟨xs, slot, loan, ys, rfl, hf, ?_⟩
    simp only [FrameLedger.releaseWhere, hslot, bind, Except.bind]

/-- A process lets go of the frames in the slots where it holds one. The loans before them are done
with. -/
theorem Keeps.releaseSlots {pid : Pid} {done todo : List (Nat × Loan)}
    (h : l.Keeps (done ++ todo)) :
    ∃ l', FrameLedger.releaseSlots pid
        ((todo.filter fun e => e.2.holders.any (·.pid = pid)).map Prod.fst) l =
          .ok ((todo.filter fun e => e.2.onlyHeldBy pid).map fun e => e.2.frame, l') ∧
      l'.Keeps (done ++ dismiss pid todo) ∧ l'.policy = l.policy ∧ l'.epoch = l.epoch ∧
      l.pool.SamePages l'.pool := by
  induction todo generalizing done l with
  | nil => exact ⟨l, rfl, h, rfl, rfl, .refl _⟩
  | cons e todo ih =>
    obtain ⟨slot, loan⟩ := e
    have hne : loan.holders ≠ [] := h.books.held loan (by simp)
    by_cases hany : loan.holders.any (·.pid = pid) = true
    · obtain ⟨loans₁, hm, hr⟩ := h.ring.modify
        (fun loan : Loan => { loan with holders := loan.holders.filter (·.pid ≠ pid) })
      obtain ⟨n, hn, hv⟩ := hr.node_of_mem (List.mem_append_right done List.mem_cons_self)
      by_cases hall : loan.onlyHeldBy pid = true
      · -- the last holder goes
        have hrest : loan.holders.filter (·.pid ≠ pid) = [] := by
          simpa [Loan.onlyHeldBy] using hall
        obtain ⟨i, loans', hf, hc, hk⟩ := h.close hr rfl
        obtain ⟨l', hrun, hk', hp, he, hs⟩ := ih hk
        refine ⟨l', ?_, ?_, hp, he, (PagePool.samePages_takeBack i).trans hs⟩
        · simp only [List.filter_cons, hany, hall, if_true, List.map_cons, FrameLedger.releaseSlots,
            hm, hn, hv, hrest, List.isEmpty_nil, hc, hrun, bind, Except.bind, pure, Except.pure]
        · simpa [dismiss, hall] using hk'
      · have hrest : loan.holders.filter (·.pid ≠ pid) ≠ [] := by
          simpa [Loan.onlyHeldBy] using hall
        have hk :
            Keeps { l with loans := loans₁ } ((done ++ [(slot, loan.without pid)]) ++ todo) := by
          constructor
          · rw [List.append_assoc]
            exact hr
          · have hb := h.books
            rw [List.map_append, List.map_cons] at hb
            rw [List.append_assoc, List.map_append]
            exact hb.thin List.filter_sublist hrest
        obtain ⟨l', hrun, hk', hp, he, hs⟩ := ih hk
        refine ⟨l', ?_, ?_, hp, he, hs⟩
        · simp only [List.filter_cons, hany, hall, if_true, List.map_cons, FrameLedger.releaseSlots,
            hm, hn, hv, List.isEmpty_iff, hrest, hrun, bind, Except.bind, if_false,
            Bool.false_eq_true]
        · simpa [dismiss, hall] using hk'
    · -- the process does not hold this frame
      have hother : ∀ holder ∈ loan.holders, holder.pid ≠ pid := by simpa using hany
      have hall : ¬ loan.onlyHeldBy pid = true := by
        intro hc
        obtain ⟨holder, hh⟩ := List.exists_mem_of_ne_nil _ hne
        exact hother holder hh (by simpa using List.all_eq_true.mp hc holder hh)
      have hsame : loan.without pid = loan := by
        have : loan.holders.filter (·.pid ≠ pid) = loan.holders :=
          List.filter_eq_self.mpr (by simpa using hother)
        simp only [Loan.without, this]
      have hk : l.Keeps ((done ++ [(slot, loan)]) ++ todo) := by simpa using h
      obtain ⟨l', hrun, hk', hp, he, hs⟩ := ih hk
      refine ⟨l', ?_, ?_, hp, he, hs⟩
      · simp only [List.filter_cons, hany, hall, if_false, Bool.false_eq_true]
        exact hrun
      · simpa [dismiss, hall, hsame] using hk'

/-- A process lets go of all its frames, and of nothing else. -/
theorem Keeps.releaseAll (h : l.Keeps es) (pid : Pid) :
    ∃ l', l.releaseAll pid =
        .ok ((es.filter fun e => e.2.onlyHeldBy pid).map fun e => e.2.frame, l') ∧
      l'.Keeps (dismiss pid es) ∧ l'.policy = l.policy ∧ l'.epoch = l.epoch ∧
      l.pool.SamePages l'.pool := by
  have h' : l.Keeps ([] ++ es) := h
  obtain ⟨l', hrun, hk, hp, he, hs⟩ := h'.releaseSlots
  refine ⟨l', ?_, hk, hp, he, hs⟩
  simp only [FrameLedger.releaseAll, h.ring.entries, bind, Except.bind]
  exact hrun

/-! ## Choosing a victim -/

variable {σ : Type} [UseBits σ]

def scanned (l : FrameLedger) (loans : CircularList Loan) : FrameLedger :=
  { l with
    loans := loans
    stats := { l.stats with victimScans := l.stats.victimScans + 1 } }

/-- The victim is what the sweep finds, else the loan under the hand. It is marked, and the hand
comes to stand behind it. -/
theorem pickVictim_eq {start : Nat} (h : l.loans.Holds ((start, loan) :: es)) (bits : σ) :
    ∃ xs slot victim ys loans',
      slot = (sweep l.policy l.epoch (2 * (es.length + 1)) ((start, loan) :: es) none bits).1.getD
        start ∧
      (sweep l.policy l.epoch (2 * (es.length + 1)) ((start, loan) :: es) none bits).2.1 =
        xs ++ (slot, victim) :: ys ∧
      l.pickVictim bits = .ok (some victim.frame, l.scanned loans',
        (sweep l.policy l.epoch (2 * (es.length + 1)) ((start, loan) :: es) none bits).2.2) ∧
      loans'.Holds (ys ++ xs ++ [(slot, { victim with chosen := true })]) := by
  obtain ⟨loans₁, hscan, _, hc⟩ :=
    scan_eq_sweep l.policy l.epoch (2 * (es.length + 1)) none bits h.toCycle rfl
  obtain ⟨⟨found, es', bits'⟩, hsweep⟩ : ∃ x,
      sweep l.policy l.epoch (2 * (es.length + 1)) ((start, loan) :: es) none bits = x := ⟨_, rfl⟩
  have hslots : ∀ slot, slot ∈ es'.map Prod.fst ↔ slot ∈ ((start, loan) :: es).map Prod.fst := by
    intro slot
    rw [← sweep_slots_mem l.policy l.epoch (2 * (es.length + 1)) (_ :: es) none bits, hsweep]
  have hvictim : found.getD start ∈ es'.map Prod.fst := by
    rw [hslots]
    cases hfound : found with
    | none => exact List.mem_cons_self
    | some slot =>
      apply sweep_found_mem l.policy l.epoch (2 * (es.length + 1)) none bits (by simp)
      rw [hsweep]
      exact hfound
  rw [hsweep] at hscan hc
  obtain ⟨⟨slot, victim⟩, hm, hslot⟩ := List.mem_map.mp hvictim
  obtain ⟨xs, ys, rfl⟩ := List.append_of_mem hm
  obtain ⟨loans₂, hm₂, _, hc₂⟩ := hc.modify (fun loan : Loan => { loan with chosen := true })
  obtain ⟨n, hn, hv⟩ := hc₂.node_of_mem (List.mem_append_right xs List.mem_cons_self)
  -- the circle from behind the victim
  have hbehind : loans₂.Cycle ([(slot, { victim with chosen := true })] ++ (ys ++ xs)) :=
    hc₂.rotate
  have hnext : (ys ++ xs ++ [(slot, { victim with chosen := true })]).head?.map Prod.fst =
      some n.next := CircularList.Cycle.next_eq hbehind hn
  refine ⟨xs, slot, victim, ys, { loans₂ with hand := some n.next }, ?_, ?_, ?_, ?_⟩
  · rw [hsweep]
    exact hslot
  · rw [hsweep]
  · simp only [FrameLedger.pickVictim, h.hand_eq, h.size_eq, List.head?_cons, Option.map_some,
      List.length_cons, hsweep, hscan, ← hslot, hm₂, hn, hv, bind, Except.bind, pure, Except.pure,
      scanned]
  · have := (CircularList.Cycle.rotate hbehind).setHand
    rwa [hnext] at this

/-- What it means to choose a victim: the ring turns and every loan keeps its terms, of the marks of
use nothing but accessed marks are cleared, and there is a victim unless nothing is lent. -/
structure Picks (l : FrameLedger) (es : List (Nat × Loan)) (bits : σ) (victim : Option PhysAddr)
    (l' : FrameLedger) (bits' : σ) (es' : List (Nat × Loan)) : Prop where
  run : l.pickVictim bits = .ok (victim, l', bits')
  keeps : l'.Keeps es'
  isRotated : (outline es').IsRotated (outline es)
  eq_none_iff : victim = none ↔ es = []
  mem : ∀ frame, victim = some frame → ∃ e ∈ es, e.2.frame = frame
  pool_eq : l'.pool = l.pool
  policy_eq : l'.policy = l.policy
  epoch_eq : l'.epoch = l.epoch
  marks : ∀ p : σ → Prop, (∀ bits h, p bits → p (UseBits.clearAccessed bits h)) → p bits → p bits'

theorem Keeps.pickVictim (h : l.Keeps es) (bits : σ) :
    ∃ victim l' bits' es', Picks l es bits victim l' bits' es' := by
  cases es with
  | nil =>
    refine ⟨none, l, bits, [], ?_, h, .refl _, by simp, by simp, rfl, rfl, rfl, fun _ _ hp => hp⟩
    simp only [FrameLedger.pickVictim, h.ring.hand_eq, List.head?_nil, Option.map_none, pure,
      Except.pure]
  | cons e es =>
    obtain ⟨xs, slot, victim, ys, loans', hslot, hsweep, hrun, hr⟩ := pickVictim_eq h.ring bits
    have hrot := sweep_isRotated l.policy l.epoch (2 * (es.length + 1)) (e :: es) none bits
    have hused := sweep_lastUsed l.policy (2 * (es.length + 1)) none bits
      fun e he => h.books.used e.2 (List.mem_map_of_mem he)
    rw [hsweep] at hrot hused
    -- to mark the victim and to put the hand behind it keeps the circle
    have hterms : (outline (ys ++ xs ++ [(slot, { victim with chosen := true })])).IsRotated
        (outline (e :: es)) := by
      refine List.IsRotated.trans ?_ hrot
      have hmark : outline [(slot, { victim with chosen := true })] = outline [(slot, victim)] :=
        rfl
      have hsplit : outline (xs ++ (slot, victim) :: ys) =
          outline xs ++ outline [(slot, victim)] ++ outline ys := by simp [outline]
      rw [hsplit, List.append_assoc ys, outline_append, outline_append xs, hmark]
      exact List.isRotated_append
    have hbooks : Balanced l.pool l.stats l.epoch
        ((ys ++ xs ++ [(slot, { victim with chosen := true })]).map Prod.snd) := by
      apply h.books.of_terms
      · rw [← map_snd_outline, ← map_snd_outline]
        exact (hterms.map Prod.snd).perm
      · intro loan hm
        obtain ⟨e', he, rfl⟩ := List.mem_map.mp hm
        simp only [List.mem_append, List.mem_singleton] at he
        rcases he with (he | he) | rfl
        · exact hused e' (by simp [he])
        · exact hused e' (by simp [he])
        · exact hused (slot, victim) (by simp)
    refine ⟨some victim.frame, l.scanned loans', _, _, hrun, ⟨hr, ?_⟩, hterms, by simp, ?_, rfl,
      rfl,
      rfl, ?_⟩
    · exact { hbooks with balance := hbooks.balance }
    · rintro _ ⟨rfl⟩
      have hv : (slot, victim.terms) ∈ outline (e :: es) :=
        hrot.perm.subset (List.mem_map.mpr ⟨(slot, victim), by simp, rfl⟩)
      obtain ⟨e', he, ht⟩ := List.mem_map.mp hv
      exact ⟨e', he, congrArg (fun k => k.2.1) ht⟩
    · intro p hp hbits
      exact sweep_bits hp l.policy l.epoch _ _ none hbits

/-- A frame is lent unless the holder holds one at the address or the pool is empty; then a victim
is named. -/
theorem Keeps.lend (h : l.Keeps es) (holder : Holder) (bits : σ) :
    (l.lend holder bits = .ok (.error (.duplicateReference holder), l, bits) ∧
        ∃ e ∈ es, holder ∈ e.2.holders) ∨
      (∃ i slot loans', l.pool.taken.contains i = false ∧ (∀ e ∈ es, holder ∉ e.2.holders) ∧
        l.lend holder bits = .ok (.ok (l.pool.frameAddress i), l.entered i loans', bits) ∧
        (l.entered i loans').Keeps
          (es ++ [(slot, ⟨l.pool.frameAddress i, [holder], l.epoch + 1, false⟩)])) ∨
      ∃ victim l' bits' es', l.pool.free = 0 ∧ (∀ e ∈ es, holder ∉ e.2.holders) ∧
        Picks l es bits victim l' bits' es' ∧
        l.lend holder bits = .ok (.error (.outOfFrames victim), l', bits') := by
  rcases slotHeld?_cases h.ring holder with ⟨hheld, hn⟩ | ⟨slot, loan, hm, hl, hheld⟩
  · right
    cases ha : l.pool.acquire with
    | some found =>
      left
      obtain ⟨frame, pool⟩ := found
      obtain ⟨i, hi, rfl, rfl, _⟩ := PagePool.acquire_eq_some ha
      obtain ⟨slot, loans', hrun, hk⟩ := h.enter hi hn
      refine ⟨i, slot, loans', hi, hn, ?_, hk⟩
      simp only [FrameLedger.lend, hheld, ha, hrun, bind, Except.bind, pure, Except.pure,
        Option.isSome_none, Bool.false_eq_true, if_false]
    | none =>
      right
      obtain ⟨victim, l', bits', es', hpick⟩ := h.pickVictim bits
      refine ⟨victim, l', bits', es', (PagePool.acquire_eq_none_iff h.books.sound).mp ha, hn, hpick,
        ?_⟩
      simp only [FrameLedger.lend, hheld, ha, hpick.run, bind, Except.bind, pure, Except.pure,
        Option.isSome_none, Bool.false_eq_true, if_false]
  · left
    refine ⟨?_, (slot, loan), hm, hl⟩
    simp only [FrameLedger.lend, hheld, bind, Except.bind, pure, Except.pure, Option.isSome_some,
      if_true]

/-! ## Contents -/

/-- The books do not look into the frames. -/
theorem Keeps.setPages (h : l.Keeps es) (pages : Vector Page l.pool.total) :
    Keeps { l with pool := { l.pool with pages } } es where
  ring := h.ring
  books :=
    { sound := ⟨h.books.sound.aligned, h.books.sound.fits, h.books.sound.count⟩
      held := h.books.held
      holders_nodup := h.books.holders_nodup
      frames_nodup := h.books.frames_nodup
      lent := h.books.lent
      tracked := h.books.tracked
      balance := h.books.balance
      used := h.books.used }

end FrameLedger

end TeachingKernel
