import TeachingKernel.Proofs.Ledger.Repetition

/-!
# Choosing a victim where nothing is used

Where no holder of a lent frame is marked the hand only goes around: it clears no mark and leaves
the loans as they are. It finds the first loan that was not chosen yet. This holds for the
working-set policy too, as long as of the loans that were not chosen those come first that were used
first: if the first of them is not old enough for the policy, then none is, and the first is what it
falls back on.
-/

namespace TeachingKernel

variable {σ : Type} [UseBits σ] {bits : σ}

def Unmarked (bits : σ) (holders : List Holder) : Prop :=
  ∀ h ∈ holders, UseBits.isAccessed bits h = false ∧ UseBits.isDirty bits h = false

theorem Unmarked.cold {holders : List Holder} (h : Unmarked bits holders) : Cold bits holders :=
  fun holder hm => (h holder hm).1

/-- Of unmarked loans the working-set policy prefers the older ones. -/
theorem Policy.prefers_of_unmarked {policy : Policy} {epoch : Nat} {loan other : Loan}
    (hother : policy.prefers epoch bits other = true) (hloan : Unmarked bits loan.holders)
    (hage : loan.lastUsed ≤ other.lastUsed) : policy.prefers epoch bits loan = true := by
  cases policy with
  | clock => rfl
  | workingSet window =>
    simp only [Policy.prefers, Bool.and_eq_true, decide_eq_true_eq] at hother ⊢
    refine ⟨by omega, ?_⟩
    simpa using fun h hm => (hloan h hm).2

namespace FrameLedger

variable {policy : Policy} {epoch : Nat} {es pre post : List (Nat × Loan)} {slot : Nat}
  {loan : Loan} {fallback : Option Nat} {l : FrameLedger}

/-- No holder of a lent frame is marked. -/
def Idle (l : FrameLedger) (bits : σ) : Prop :=
  ∀ loans, l.toList = .ok loans → ∀ loan ∈ loans, Unmarked bits loan.holders

theorem Keeps.unmarked_of_idle (h : l.Keeps es) (hidle : l.Idle bits) :
    ∀ e ∈ es, Unmarked bits e.2.holders :=
  fun e he => hidle _ h.toList e.2 (List.mem_map_of_mem he)

/-- Of the loans that were not chosen, those come first that were used first. -/
def Aged (es : List (Nat × Loan)) : Prop :=
  es.Pairwise fun e e' =>
    e.2.chosen = false → e'.2.chosen = false → e.2.lastUsed ≤ e'.2.lastUsed

/-! ## What the hand finds -/

/-- The hand passes over the loans that were chosen and, when it has a loan to fall back on, over
those that the policy does not prefer. -/
theorem sweep_of_passed (count : Nat) (h : ∀ e ∈ es, Cold bits e.2.holders ∧
      (e.2.chosen = true ∨ fallback.isSome = true ∧ policy.prefers epoch bits e.2 = false)) :
    sweep policy epoch count es fallback bits = (fallback, es.rotate count, bits) := by
  induction count generalizing es with
  | zero => rw [sweep, List.rotate_zero]
  | succ count ih =>
    cases es with
    | nil => rw [sweep, List.rotate_nil]
    | cons e es =>
      obtain ⟨hcold, hpassed⟩ := h e List.mem_cons_self
      have hturned : ∀ e' ∈ es ++ [e], Cold bits e'.2.holders ∧ _ := fun e' he =>
        h e' (by simpa [or_comm] using he)
      rw [sweep, hcold.takeAccessed, List.rotate_cons_succ, ← ih hturned]
      simp only [Bool.false_eq_true, if_false]
      split
      · rfl
      · rename_i hchosen
        obtain ⟨hfallback, hprefers⟩ := hpassed.resolve_left hchosen
        obtain ⟨first, rfl⟩ := Option.isSome_iff_exists.mp hfallback
        simp only [hprefers, Bool.false_eq_true, if_false, Option.some_or]

/-- The hand finds the first loan that was not chosen, unless the policy prefers a later one. -/
theorem sweep_of_first {count : Nat}
    (hcold : ∀ e ∈ pre ++ (slot, loan) :: post, Cold bits e.2.holders)
    (hpre : ∀ e ∈ pre, e.2.chosen = true) (hloan : loan.chosen = false)
    (hpost : policy.prefers epoch bits loan = false →
      ∀ e ∈ post, e.2.chosen = true ∨ policy.prefers epoch bits e.2 = false)
    (hcount : pre.length < count) :
    ∃ n, sweep policy epoch count (pre ++ (slot, loan) :: post) none bits =
      (some slot, (pre ++ (slot, loan) :: post).rotate n, bits) := by
  obtain ⟨count, rfl⟩ : ∃ n, count = n + 1 := ⟨count - 1, by omega⟩
  induction pre generalizing count post with
  | nil =>
    rw [List.nil_append] at hcold ⊢
    have hturned : ∀ e ∈ post ++ [(slot, loan)], Cold bits e.2.holders := fun e he =>
      hcold e (by simpa [or_comm] using he)
    rw [sweep, (hcold _ List.mem_cons_self).takeAccessed]
    simp only [Bool.false_eq_true, if_false, hloan, Option.none_or]
    cases hprefers : policy.prefers epoch bits loan with
    | true => exact ⟨0, by rw [List.rotate_zero]; rfl⟩
    | false =>
      refine ⟨count + 1, ?_⟩
      rw [List.rotate_cons_succ]
      simp only [Bool.false_eq_true, if_false]
      refine sweep_of_passed count fun e he => ⟨hturned e he, ?_⟩
      rcases List.mem_append.mp he with he | he
      · exact (hpost hprefers e he).imp_right fun hn => ⟨rfl, hn⟩
      · rw [List.mem_singleton.mp he]
        exact .inr ⟨rfl, hprefers⟩
  | cons e pre ih =>
    obtain ⟨count, rfl⟩ : ∃ n, count = n + 1 := ⟨count - 1, by simp at hcount; omega⟩
    have hchosen : e.2.chosen = true := hpre e List.mem_cons_self
    rw [List.cons_append] at hcold ⊢
    rw [sweep, (hcold e List.mem_cons_self).takeAccessed]
    simp only [Bool.false_eq_true, if_false, hchosen, if_true, List.append_assoc, List.cons_append]
    have hcold' : ∀ e' ∈ pre ++ (slot, loan) :: (post ++ [e]), Cold bits e'.2.holders :=
      fun e' he =>
      hcold e' (by simpa [or_assoc, or_comm, or_left_comm] using he)
    have hpost' : policy.prefers epoch bits loan = false →
        ∀ e' ∈ post ++ [e], e'.2.chosen = true ∨ policy.prefers epoch bits e'.2 = false := by
      intro hprefers e' he
      rcases List.mem_append.mp he with he | he
      · exact hpost hprefers e' he
      · rw [List.mem_singleton.mp he]
        exact .inl hchosen
    obtain ⟨n, hn⟩ := ih hcold' (fun e' he => hpre e' (List.mem_cons_of_mem _ he)) hpost' count
      (by simpa using hcount)
    refine ⟨n + 1, ?_⟩
    rw [List.rotate_cons_succ, List.append_assoc, List.cons_append]
    exact hn

/-- Whatever the policy, the hand comes to the first loan that was not chosen. If all were chosen it
finds none, and the loan under the hand is taken. -/
theorem exists_sweep_of_unmarked {e : Nat × Loan}
    (hidle : ∀ e' ∈ e :: es, Unmarked bits e'.2.holders) (hages : Aged (e :: es)) :
    ∃ pre slot loan post found, e :: es = pre ++ (slot, loan) :: post ∧
      (∀ e' ∈ pre, e'.2.chosen = true) ∧
      (loan.chosen = true → pre = [] ∧ ∀ e' ∈ post, e'.2.chosen = true) ∧
      slot = found.getD e.1 ∧
      ∀ policy epoch count, (e :: es).length ≤ count → ∃ n,
        sweep policy epoch count (e :: es) none bits = (found, (e :: es).rotate n, bits) := by
  cases hfirst : (e :: es).find? fun e' => !e'.2.chosen with
  | none =>
    have hall : ∀ e' ∈ e :: es, e'.2.chosen = true := by simpa using hfirst
    refine ⟨[], e.1, e.2, es, none, rfl, by simp,
      fun _ => ⟨rfl, fun e' he => hall e' (List.mem_cons_of_mem _ he)⟩, rfl, ?_⟩
    exact fun policy epoch count _ =>
      ⟨count, sweep_of_passed count fun e' he => ⟨(hidle e' he).cold, .inl (hall e' he)⟩⟩
  | some first =>
    obtain ⟨hfirst, pre, post, hsplit, hpre⟩ := List.find?_eq_some_iff_append.mp hfirst
    have hchosen : first.2.chosen = false := by simpa using hfirst
    have hpre' : ∀ e' ∈ pre, e'.2.chosen = true := fun e' he => by simpa using hpre e' he
    refine ⟨pre, first.1, first.2, post, some first.1, hsplit, hpre', ?_, rfl, ?_⟩
    · simp [hchosen]
    · intro policy epoch count hcount
      rw [hsplit] at hidle hages hcount ⊢
      refine sweep_of_first (fun e' he => (hidle e' he).cold) hpre' hchosen ?_ ?_
      · -- the others that were not chosen were used later
        intro hprefers e' he
        by_cases hother : e'.2.chosen = true
        · exact .inl hother
        · right
          have hage : first.2.lastUsed ≤ e'.2.lastUsed :=
            (List.pairwise_cons.mp (List.pairwise_append.mp hages).2.1).1 e' he hchosen
              (by simpa using hother)
          by_contra hc
          have := Policy.prefers_of_unmarked (by simpa using hc) (hidle first (by simp)) hage
          rw [hprefers] at this
          contradiction
      · simp at hcount
        omega

/-- Where no holder is marked accessed, the scan leaves the ring and the marks as they are. -/
theorem scan_of_cold (policy : Policy) (epoch count : Nat) (fallback : Option Nat) {slot : Nat}
    {loans : CircularList Loan} (h : loans.Cycle es) (hcold : ∀ e ∈ es, Cold bits e.2.holders)
    (hs : es.head?.map Prod.fst = some slot) :
    scan policy epoch count slot fallback loans bits =
      .ok ((sweep policy epoch count es fallback bits).1, loans, bits) := by
  induction count generalizing slot es fallback with
  | zero => rfl
  | succ count ih =>
    obtain ⟨⟨s, loan⟩, es, rfl⟩ : ∃ e rest, es = e :: rest := by
      cases es with
      | nil => simp at hs
      | cons e rest => exact ⟨e, rest, rfl⟩
    obtain rfl : s = slot := by simpa using hs
    obtain ⟨n, hn, rfl⟩ := h.node_of_mem List.mem_cons_self
    have hnext := h.next_eq hn
    have hturned : loans.Cycle (es ++ [(s, n.value)]) := by
      have h' : loans.Cycle ([(s, n.value)] ++ es) := h
      exact h'.rotate
    have hcold' : ∀ e ∈ es ++ [(s, n.value)], Cold bits e.2.holders := fun e he =>
      hcold e (by simpa [or_comm] using he)
    have hhead : Cold bits n.value.holders := hcold _ List.mem_cons_self
    simp only [scan, sweep, hn, hhead.takeAccessed, bind, Except.bind, pure, Except.pure,
      Bool.false_eq_true, if_false]
    split
    · exact ih _ hturned hcold' hnext
    · split
      · rfl
      · exact ih _ hturned hcold' hnext

/-! ## Another policy

Of the operations only the choice of a victim asks the policy. -/

def withPolicy (l : FrameLedger) (policy : Policy) : FrameLedger := { l with policy }

@[simp] theorem loans_withPolicy (policy : Policy) : (l.withPolicy policy).loans = l.loans := rfl

@[simp] theorem pool_withPolicy (policy : Policy) : (l.withPolicy policy).pool = l.pool := rfl

@[simp] theorem epoch_withPolicy (policy : Policy) : (l.withPolicy policy).epoch = l.epoch := rfl

@[simp] theorem policy_withPolicy (policy : Policy) : (l.withPolicy policy).policy = policy := rfl

section

variable {l' : FrameLedger} {frame : PhysAddr} {holder : Holder}

theorem enter_withPolicy (policy : Policy) (h : l.enter frame holder = .ok l') :
    (l.withPolicy policy).enter frame holder = .ok (l'.withPolicy policy) := by
  obtain ⟨loans, hinsert, h⟩ := Checked.bind_eq_ok.mp h
  cases h
  exact Checked.bind_eq_ok.mpr ⟨loans, hinsert, rfl⟩

theorem share_withPolicy (policy : Policy) {result : Except FrameError FrameLedger}
    (h : l.share frame holder = .ok result) :
    (l.withPolicy policy).share frame holder = .ok (result.map (·.withPolicy policy)) := by
  simp only [share] at h ⊢
  obtain ⟨held, hheld, h⟩ := Checked.bind_eq_ok.mp h
  refine Checked.bind_eq_ok.mpr ⟨held, hheld, ?_⟩
  split at h
  · rw [if_pos ‹_›]
    cases h
    rfl
  · rw [if_neg ‹_›]
    obtain ⟨found, hfound, h⟩ := Checked.bind_eq_ok.mp h
    refine Checked.bind_eq_ok.mpr ⟨found, hfound, ?_⟩
    cases found with
    | none =>
      cases h
      rfl
    | some slot =>
      obtain ⟨loans, hmodify, h⟩ := Checked.bind_eq_ok.mp h
      cases h
      exact Checked.bind_eq_ok.mpr ⟨loans, hmodify, rfl⟩

theorem close_withPolicy (policy : Policy) (h : l.close slot = .ok (frame, l')) :
    (l.withPolicy policy).close slot = .ok (frame, l'.withPolicy policy) := by
  obtain ⟨⟨loan, loans⟩, hremove, h⟩ := Checked.bind_eq_ok.mp h
  obtain ⟨pool, hrelease, h⟩ := Checked.bind_eq_ok.mp h
  cases h
  exact Checked.bind_eq_ok.mpr ⟨_, hremove, Checked.bind_eq_ok.mpr ⟨_, hrelease, rfl⟩⟩

theorem letGo_withPolicy (policy : Policy) {test : Holder → Bool} {answer : Release}
    (h : l.letGo slot test = .ok (answer, l')) :
    (l.withPolicy policy).letGo slot test = .ok (answer, l'.withPolicy policy) := by
  simp only [letGo] at h ⊢
  obtain ⟨node, hnode, h⟩ := Checked.bind_eq_ok.mp h
  refine Checked.bind_eq_ok.mpr ⟨node, hnode, ?_⟩
  split at h
  · rw [if_pos ‹_›]
    cases h
    rfl
  · rw [if_neg ‹_›]
    obtain ⟨loans, hmodify, h⟩ := Checked.bind_eq_ok.mp h
    refine Checked.bind_eq_ok.mpr ⟨loans, hmodify, ?_⟩
    split at h
    · rw [if_pos ‹_›]
      obtain ⟨⟨frame, l₁⟩, hclose, h⟩ := Checked.bind_eq_ok.mp h
      cases h
      exact Checked.bind_eq_ok.mpr ⟨_, close_withPolicy policy hclose, rfl⟩
    · rw [if_neg ‹_›]
      cases h
      rfl

theorem releaseWhere_withPolicy (policy : Policy) {test : Holder → Bool} {answer : Release}
    (h : l.releaseWhere frame test = .ok (answer, l')) :
    (l.withPolicy policy).releaseWhere frame test = .ok (answer, l'.withPolicy policy) := by
  obtain ⟨found, hfound, h⟩ := Checked.bind_eq_ok.mp h
  refine Checked.bind_eq_ok.mpr ⟨found, hfound, ?_⟩
  cases found with
  | none =>
    cases h
    rfl
  | some slot => exact letGo_withPolicy policy h

theorem releaseSlots_withPolicy (policy : Policy) {pid : Pid} {slots : List Nat}
    {frames : List PhysAddr} (h : releaseSlots pid slots l = .ok (frames, l')) :
    releaseSlots pid slots (l.withPolicy policy) = .ok (frames, l'.withPolicy policy) := by
  induction slots generalizing l frames with
  | nil =>
    cases h
    rfl
  | cons slot slots ih =>
    simp only [releaseSlots] at h ⊢
    obtain ⟨loans, hmodify, h⟩ := Checked.bind_eq_ok.mp h
    refine Checked.bind_eq_ok.mpr ⟨loans, hmodify, ?_⟩
    obtain ⟨node, hnode, h⟩ := Checked.bind_eq_ok.mp h
    refine Checked.bind_eq_ok.mpr ⟨node, hnode, ?_⟩
    split at h
    · rw [if_pos ‹_›]
      obtain ⟨⟨frame, l₁⟩, hclose, h⟩ := Checked.bind_eq_ok.mp h
      obtain ⟨⟨rest, l₂⟩, hrest, h⟩ := Checked.bind_eq_ok.mp h
      cases h
      exact Checked.bind_eq_ok.mpr ⟨_, close_withPolicy policy hclose,
        Checked.bind_eq_ok.mpr ⟨_, ih hrest, rfl⟩⟩
    · rw [if_neg ‹_›]
      exact ih h

theorem releaseAll_withPolicy (policy : Policy) {pid : Pid} {frames : List PhysAddr}
    (h : l.releaseAll pid = .ok (frames, l')) :
    (l.withPolicy policy).releaseAll pid = .ok (frames, l'.withPolicy policy) := by
  obtain ⟨entries, hentries, h⟩ := Checked.bind_eq_ok.mp h
  exact Checked.bind_eq_ok.mpr ⟨entries, hentries, releaseSlots_withPolicy policy h⟩

end

/-! ## The victim -/

/-- There is one loan in a slot, and one place where it stands. -/
theorem middle_inj {A B : List (Nat × Loan)} {other : Loan}
    (hnodup : ((pre ++ (slot, loan) :: post).map Prod.fst).Nodup)
    (h : pre ++ (slot, loan) :: post = A ++ (slot, other) :: B) :
    pre = A ∧ loan = other ∧ post = B := by
  have hother : (slot, other) = (slot, loan) := by
    refine List.inj_on_of_nodup_map hnodup ?_ (by simp) rfl
    rw [h]
    simp
  obtain ⟨-, rfl⟩ := Prod.mk.inj hother
  rw [List.map_append, List.map_cons, List.nodup_middle, List.nodup_cons, List.mem_append, not_or]
    at hnodup
  have hout : ∀ {es : List (Nat × Loan)}, slot ∉ es.map Prod.fst → (slot, other) ∉ es :=
    fun hn hm => hn (List.mem_map_of_mem hm)
  obtain ⟨hA, -, hB⟩ :=
    (List.append_cons_inj_of_notMem (hout hnodup.1.1) (hout hnodup.1.2)).mp h
  exact ⟨hA, rfl, hB⟩

/-- Where nothing is used every policy chooses the first loan that was not chosen, or, if there is
none, the loan under the hand. -/
theorem Keeps.pickVictim_of_idle {e : Nat × Loan} (h : l.Keeps (e :: es)) (hidle : l.Idle bits)
    (hages : Aged (e :: es)) :
    ∃ (pre : _) (slot : _) (loan : _) (post : _) (l' : FrameLedger),
      e :: es = pre ++ (slot, loan) :: post ∧
      (∀ e' ∈ pre, e'.2.chosen = true) ∧
      (loan.chosen = true → pre = [] ∧ ∀ e' ∈ post, e'.2.chosen = true) ∧
      (∀ policy, (l.withPolicy policy).pickVictim bits =
        .ok (some loan.frame, l'.withPolicy policy, bits)) ∧
      l'.Keeps (post ++ pre ++ [(slot, { loan with chosen := true })]) ∧ l'.epoch = l.epoch := by
  have hunmarked := h.unmarked_of_idle hidle
  obtain ⟨pre, slot, loan, post, found, hsplit, hpre, hall, hslot, hfound⟩ :=
    exists_sweep_of_unmarked hunmarked hages
  have hhand : l.loans.hand = some e.1 := by
    rw [h.ring.hand_eq]
    rfl
  have hsize : (e :: es).length ≤ 2 * l.loans.size := by
    rw [h.ring.size_eq]
    omega
  have hscan : ∀ policy, scan policy l.epoch (2 * l.loans.size) e.1 none l.loans bits =
      .ok (found, l.loans, bits) := by
    intro policy
    obtain ⟨n, hn⟩ := hfound policy l.epoch _ hsize
    rw [scan_of_cold policy l.epoch _ none h.ring.toCycle (fun e' he => (hunmarked e' he).cold) rfl,
      hn]
  have hpolicy : ∀ policy, (l.withPolicy policy).pickVictim bits =
      (l.pickVictim bits).map fun x => (x.1, x.2.1.withPolicy policy, x.2.2) := by
    intro policy
    simp only [FrameLedger.pickVictim, hhand, hscan, loans_withPolicy, policy_withPolicy,
      epoch_withPolicy, bind, Except.bind, pure, Except.pure]
    cases l.loans.modify (found.getD e.1) fun loan => { loan with chosen := true } with
    | error => rfl
    | ok loans =>
      dsimp only
      cases loans.node (found.getD e.1) <;> rfl
  obtain ⟨victim, l', bits', es', hpick⟩ := h.pickVictim bits
  obtain ⟨xs, slot', loan', ys, loans', hslot', hsweep, hrun, hr⟩ := pickVictim_eq h.ring bits
  rw [hpick.run] at hrun
  simp only [Except.ok.injEq, Prod.mk.injEq] at hrun
  obtain ⟨rfl, rfl, hbits⟩ := hrun
  obtain rfl : es' = _ := by simpa using hpick.keeps.ring.entries.symm.trans hr.entries
  -- where the victim stood before the hand went around
  obtain ⟨n, hn⟩ := hfound l.policy l.epoch (2 * (es.length + 1)) (by rw [List.length_cons]; omega)
  rw [hn] at hslot' hsweep hbits
  obtain ⟨A, B, hAB, hturned⟩ := exists_append_of_isRotated ⟨n, hsweep⟩
  obtain rfl := hslot.trans hslot'.symm
  rw [hAB] at hsplit
  have hnodup := h.ring.nodup
  rw [hAB] at hnodup
  obtain ⟨rfl, rfl, rfl⟩ := middle_inj hnodup hsplit
  refine ⟨A, slot, loan', B, _, hAB, hpre, hall, fun policy => ?_, ?_, hpick.epoch_eq⟩
  · rw [hpolicy, hpick.run, hbits]
    rfl
  · rw [hturned, List.append_assoc]
    exact hpick.keeps

end FrameLedger

end TeachingKernel
