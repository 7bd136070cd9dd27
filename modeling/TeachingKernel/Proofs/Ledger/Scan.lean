import TeachingKernel.Proofs.Ledger.Idle

/-!
# Where the hand stops

What the marks and the loans were before the hand set out decides where it stops, although it
clears marks on its way: no two loans have a holder in common, so to clear the marks of one leaves
those of the others. On its first way around the hand stops at the first loan that the policy takes.
If there is none then there is none on the second way around either, except that the clock takes the
first loan that it found used on the first way.

Main statements: `sweep_of_taken` and `sweep_of_none_taken`.
-/

namespace TeachingKernel

/-- To clear an accessed mark leaves the dirty marks. -/
class SparesDirt (σ : Type) [UseBits σ] : Prop where
  isDirty_clearAccessed (bits : σ) (h k : Holder) :
    UseBits.isDirty (UseBits.clearAccessed bits h) k = UseBits.isDirty bits k

instance : SparesDirt UseSets where
  isDirty_clearAccessed _ _ _ := rfl

section Marks

variable {σ : Type} [UseBits σ] {bits bits' : σ} {holders : List Holder} {policy : Policy}
  {epoch : Nat} {loan : Loan}

def Loan.isHot (loan : Loan) (bits : σ) : Bool := loan.holders.any (UseBits.isAccessed bits)

def Loan.isDirty (loan : Loan) (bits : σ) : Bool := loan.holders.any (UseBits.isDirty bits)

/-- The loan after the hand passed it. -/
def Loan.passed (loan : Loan) (epoch : Nat) (bits : σ) : Loan :=
  if loan.isHot bits then loan.refreshed epoch else loan

/-- The frame was not used, and not chosen before. -/
def Loan.isOpen (loan : Loan) (bits : σ) : Bool := !loan.isHot bits && !loan.chosen

/-- The hand stops at the loan. -/
def Policy.takes (policy : Policy) (epoch : Nat) (bits : σ) (loan : Loan) : Bool :=
  loan.isOpen bits && policy.prefers epoch bits loan

theorem Loan.isHot_eq_false_iff : loan.isHot bits = false ↔ Cold bits loan.holders := by
  simp [isHot, Cold]

@[simp] theorem Loan.holders_passed : (loan.passed epoch bits).holders = loan.holders := by
  unfold passed
  split <;> rfl

@[simp] theorem Loan.frame_passed : (loan.passed epoch bits).frame = loan.frame := by
  unfold passed
  split <;> rfl

theorem Loan.passed_of_cold (h : loan.isHot bits = false) : loan.passed epoch bits = loan := by
  simp [passed, h]

theorem Loan.passed_of_hot (h : loan.isHot bits = true) :
    loan.passed epoch bits = loan.refreshed epoch := by
  simp [passed, h]

/-- A loan stays chosen unless it is found used. -/
theorem Loan.chosen_passed :
    (loan.passed epoch bits).chosen = (loan.chosen && !loan.isHot bits) := by
  cases h : loan.isHot bits <;> simp [passed, h, refreshed]

/-- The clock takes every loan that is open. -/
theorem Policy.takes_clock : Policy.clock.takes epoch bits loan = loan.isOpen bits := by
  simp [takes, prefers]

theorem Policy.takes_workingSet {window : Nat} :
    (Policy.workingSet window).takes epoch bits loan = (loan.isOpen bits &&
      (decide (window < epoch - loan.lastUsed) && !loan.isDirty bits)) := rfl

/-- A frame that was just found used is too young for the working-set policy, whatever the
window. -/
theorem Policy.prefers_refreshed {window : Nat} :
    (Policy.workingSet window).prefers epoch bits (loan.refreshed epoch) = false := by
  simp [prefers, Loan.refreshed]

/-- To take the marks of a frame tells whether one of its holders was marked. -/
theorem takeAccessed_fst (holders : List Holder) (bits : σ) :
    (takeAccessed holders bits).1 = holders.any (UseBits.isAccessed bits) := by
  induction holders generalizing bits with
  | nil => rfl
  | cons holder holders ih =>
    rw [takeAccessed, List.any_cons]
    split
    · rename_i hm
      rw [hm, Bool.true_or]
    · rename_i hm
      rw [ih, Bool.eq_false_of_not_eq_true hm, Bool.false_or]

/-- Every mark of a frame is taken, and no other. -/
theorem isAccessed_takeAccessed [LawfulUseBits σ] (holders : List Holder) (bits : σ) (k : Holder) :
    UseBits.isAccessed (takeAccessed holders bits).2 k =
      (UseBits.isAccessed bits k && decide (k ∉ holders)) := by
  induction holders generalizing bits with
  | nil => simp [takeAccessed]
  | cons holder holders ih =>
    rw [takeAccessed]
    split
    · rw [ih, LawfulUseBits.isAccessed_clearAccessed]
      by_cases hk : k = holder <;> simp [hk]
    · rename_i hm
      rw [ih]
      by_cases hk : k = holder
      · subst hk
        simp [hm]
      · simp [hk]

theorem isDirty_takeAccessed [SparesDirt σ] (holders : List Holder) (bits : σ) (k : Holder) :
    UseBits.isDirty (takeAccessed holders bits).2 k = UseBits.isDirty bits k := by
  induction holders generalizing bits with
  | nil => rfl
  | cons holder holders ih =>
    rw [takeAccessed]
    split
    · rw [ih, SparesDirt.isDirty_clearAccessed]
    · exact ih bits

def MarkedAlike (holders : List Holder) (bits bits' : σ) : Prop :=
  ∀ h ∈ holders, UseBits.isAccessed bits' h = UseBits.isAccessed bits h ∧
    UseBits.isDirty bits' h = UseBits.isDirty bits h

namespace MarkedAlike

theorem isHot_eq (h : MarkedAlike loan.holders bits bits') :
    loan.isHot bits' = loan.isHot bits := by
  rw [Bool.eq_iff_iff, Loan.isHot, Loan.isHot, List.any_eq_true, List.any_eq_true]
  exact exists_congr fun k => and_congr_right fun hk => by rw [(h k hk).1]

theorem isDirty_eq (h : MarkedAlike loan.holders bits bits') :
    loan.isDirty bits' = loan.isDirty bits := by
  rw [Bool.eq_iff_iff, Loan.isDirty, Loan.isDirty, List.any_eq_true, List.any_eq_true]
  exact exists_congr fun k => and_congr_right fun hk => by rw [(h k hk).2]

theorem isOpen_eq (h : MarkedAlike loan.holders bits bits') :
    loan.isOpen bits' = loan.isOpen bits := by
  rw [Loan.isOpen, Loan.isOpen, h.isHot_eq]

theorem passed_eq (h : MarkedAlike loan.holders bits bits') :
    loan.passed epoch bits' = loan.passed epoch bits := by
  rw [Loan.passed, Loan.passed, h.isHot_eq]

theorem takes_eq (h : MarkedAlike loan.holders bits bits') :
    policy.takes epoch bits' loan = policy.takes epoch bits loan := by
  cases policy with
  | clock => rw [Policy.takes_clock, Policy.takes_clock, h.isOpen_eq]
  | workingSet window =>
    rw [Policy.takes_workingSet, Policy.takes_workingSet, h.isOpen_eq, h.isDirty_eq]

end MarkedAlike

end Marks

namespace FrameLedger

variable {σ : Type} [UseBits σ] {bits bits' : σ} {policy : Policy} {epoch : Nat}
  {es pre post rest : List (Nat × Loan)} {slot : Nat} {loan : Loan} {fallback : Option Nat}

/-- A loan in its slot after the hand passed it. -/
def pass (epoch : Nat) (bits : σ) (e : Nat × Loan) : Nat × Loan := (e.1, e.2.passed epoch bits)

def cooled (bits : σ) (es : List (Nat × Loan)) : σ :=
  es.foldl (fun bits e => (takeAccessed e.2.holders bits).2) bits

theorem isAccessed_cooled [LawfulUseBits σ] (es : List (Nat × Loan)) (bits : σ) (k : Holder) :
    UseBits.isAccessed (cooled bits es) k =
      (UseBits.isAccessed bits k && decide (k ∉ es.flatMap fun e => e.2.holders)) := by
  induction es generalizing bits with
  | nil => simp [cooled]
  | cons e es ih =>
    have hcons : cooled bits (e :: es) = cooled (takeAccessed e.2.holders bits).2 es := rfl
    rw [hcons, ih, isAccessed_takeAccessed, Bool.and_assoc, List.flatMap_cons, ← Bool.decide_and]
    simp only [List.mem_append, not_or]

theorem isDirty_cooled [SparesDirt σ] (es : List (Nat × Loan)) (bits : σ) (k : Holder) :
    UseBits.isDirty (cooled bits es) k = UseBits.isDirty bits k := by
  induction es generalizing bits with
  | nil => rfl
  | cons e es ih => exact (ih _).trans (isDirty_takeAccessed _ _ _)

/-! ## The first way around -/

/-- The hand passes a loan that the policy does not take, and falls back on it if it is open. -/
theorem sweep_cons_of_passed {e : Nat × Loan} {count : Nat}
    (h : policy.takes epoch bits e.2 = false) :
    sweep policy epoch (count + 1) (e :: es) fallback bits =
      sweep policy epoch count (es ++ [pass epoch bits e])
        (fallback.or (if e.2.isOpen bits then some e.1 else none))
        (takeAccessed e.2.holders bits).2 := by
  obtain ⟨s, loan⟩ := e
  have hfst := takeAccessed_fst loan.holders bits
  cases hHot : loan.isHot bits with
  | true =>
    rw [← Loan.isHot, hHot] at hfst
    simp only [sweep, pass, Loan.passed_of_hot hHot, Loan.isOpen, hHot, hfst, if_true,
      Bool.not_true, Bool.false_and, Bool.false_eq_true, if_false, Option.or_none]
  | false =>
    have htake := (Loan.isHot_eq_false_iff.mp hHot).takeAccessed
    simp only [sweep, pass, Loan.passed_of_cold hHot, Loan.isOpen, hHot, htake, Bool.false_eq_true,
      if_false, Bool.not_false, Bool.true_and]
    cases hchosen : loan.chosen with
    | true => simp
    | false =>
      have hprefers : policy.prefers epoch bits loan = false := by
        simpa [Policy.takes, Loan.isOpen, hHot, hchosen] using h
      simp [hprefers]

variable [LawfulUseBits σ] [SparesDirt σ]

/-- What the hand does to the marks of one loan it does not to those of another. -/
theorem markedAlike_takeAccessed {e e' : Nat × Loan}
    (h : ∀ k ∈ e'.2.holders, k ∉ e.2.holders) :
    MarkedAlike e'.2.holders bits (takeAccessed e.2.holders bits).2 := by
  intro k hk
  rw [isAccessed_takeAccessed, isDirty_takeAccessed]
  simp [h k hk]

/-- The hand passes loans that the policy does not take, and the first of them that is open is what
it falls back on. -/
theorem sweep_append_of_passed (count : Nat)
    (hnodup : (pre.flatMap fun e => e.2.holders).Nodup)
    (h : ∀ e ∈ pre, policy.takes epoch bits e.2 = false) :
    sweep policy epoch (pre.length + count) (pre ++ rest) fallback bits =
      sweep policy epoch count (rest ++ pre.map (pass epoch bits))
        (fallback.or ((pre.find? fun e => e.2.isOpen bits).map Prod.fst)) (cooled bits pre) := by
  induction pre generalizing bits rest fallback with
  | nil => simp [cooled]
  | cons e pre ih =>
    rw [List.flatMap_cons, List.nodup_append] at hnodup
    obtain ⟨-, hpre, hdisjoint⟩ := hnodup
    have halike : ∀ e' ∈ pre, MarkedAlike e'.2.holders bits (takeAccessed e.2.holders bits).2 :=
      fun e' he => markedAlike_takeAccessed fun k hk hk' =>
        hdisjoint k hk' k (List.mem_flatMap.mpr ⟨e', he, hk⟩) rfl
    have htakes : ∀ e' ∈ pre, policy.takes epoch (takeAccessed e.2.holders bits).2 e'.2 = false :=
      fun e' he => (halike e' he).takes_eq.trans (h e' (List.mem_cons_of_mem _ he))
    have hpass : pre.map (pass epoch (takeAccessed e.2.holders bits).2) =
        pre.map (pass epoch bits) :=
      List.map_congr_left fun e' he => by rw [pass, pass, (halike e' he).passed_eq]
    have hfind : (pre.find? fun e' => e'.2.isOpen (takeAccessed e.2.holders bits).2) =
        pre.find? fun e' => e'.2.isOpen bits := by
      rw [← List.head?_filter, ← List.head?_filter,
        List.filter_congr fun e' he => (halike e' he).isOpen_eq]
    rw [List.cons_append, List.length_cons, Nat.add_right_comm,
      sweep_cons_of_passed (h e List.mem_cons_self), List.append_assoc, ih hpre htakes, hpass,
      hfind, List.append_assoc, List.map_cons, List.find?_cons]
    cases e.2.isOpen bits with
    | true => cases fallback <;> simp [cooled]
    | false => simp [cooled]

/-- The hand stops at the first loan that the policy takes. -/
theorem sweep_of_taken {count : Nat}
    (hnodup : ((pre ++ (slot, loan) :: post).flatMap fun e => e.2.holders).Nodup)
    (hpre : ∀ e ∈ pre, policy.takes epoch bits e.2 = false)
    (hloan : policy.takes epoch bits loan = true) (hcount : pre.length < count) :
    sweep policy epoch count (pre ++ (slot, loan) :: post) none bits =
      (some slot, (slot, loan) :: (post ++ pre.map (pass epoch bits)), cooled bits pre) := by
  rw [List.flatMap_append, List.flatMap_cons, List.nodup_append] at hnodup
  obtain ⟨hpre', -, hdisjoint⟩ := hnodup
  obtain ⟨count, rfl⟩ : ∃ n, count = pre.length + (n + 1) := ⟨count - pre.length - 1, by omega⟩
  have halike : MarkedAlike loan.holders bits (cooled bits pre) := by
    intro k hk
    have hk' : k ∉ pre.flatMap fun e => e.2.holders :=
      fun hm => hdisjoint k hm k (List.mem_append_left _ hk) rfl
    rw [isAccessed_cooled, isDirty_cooled]
    simp [hk']
  have hloan' := halike.takes_eq.trans hloan
  rw [Policy.takes, Bool.and_eq_true, Loan.isOpen, Bool.and_eq_true, Bool.not_eq_true',
    Bool.not_eq_true'] at hloan'
  obtain ⟨⟨hcold, hchosen⟩, hprefers⟩ := hloan'
  rw [sweep_append_of_passed _ hpre' hpre, List.cons_append, sweep,
    (Loan.isHot_eq_false_iff.mp hcold).takeAccessed]
  simp only [Bool.false_eq_true, if_false, hchosen, hprefers, if_true]

/-! ## The second way around -/

omit [LawfulUseBits σ] in
/-- What the working-set policy did not take the first time it does not take the second time
either. -/
theorem chosen_or_not_prefers_passed {window : Nat}
    (h : (Policy.workingSet window).takes epoch bits loan = false) :
    (loan.passed epoch bits).chosen = true ∨
      (Policy.workingSet window).prefers epoch (cooled bits es) (loan.passed epoch bits) =
        false := by
  cases hHot : loan.isHot bits with
  | true =>
    right
    rw [Loan.passed_of_hot hHot, Policy.prefers_refreshed]
  | false =>
    have hdirty : loan.isDirty (cooled bits es) = loan.isDirty bits := by
      simp only [Loan.isDirty, funext (isDirty_cooled es bits)]
    rw [Loan.passed_of_cold hHot]
    rw [Policy.takes_workingSet, ← hdirty, Loan.isOpen, hHot] at h
    cases hchosen : loan.chosen with
    | true => exact .inl rfl
    | false =>
      right
      rw [hchosen] at h
      exact h

omit [SparesDirt σ] in
/-- After the first way around no loan is used. -/
theorem cold_cooled : ∀ e ∈ es.map (pass epoch bits), Cold (cooled bits es) e.2.holders := by
  refine List.forall_mem_map.mpr fun e he k hk => ?_
  rw [pass, Loan.holders_passed] at hk
  have hm : k ∈ es.flatMap fun e => e.2.holders := List.mem_flatMap.mpr ⟨e, he, hk⟩
  rw [isAccessed_cooled]
  simp [hm]

/-- If a loan was open the first time, the hand finds no other the second time. -/
theorem sweep_again_of_open {first : Nat × Loan} (h : ∀ e ∈ es, policy.takes epoch bits e.2 = false)
    (hm : first ∈ es) (hopen : first.2.isOpen bits = true) (count slot : Nat) :
    sweep policy epoch count (es.map (pass epoch bits)) (some slot) (cooled bits es) =
      (some slot, (es.map (pass epoch bits)).rotate count, cooled bits es) := by
  refine sweep_of_passed _ (List.forall_mem_map.mpr fun e he =>
    ⟨cold_cooled _ (List.mem_map_of_mem he), ?_⟩)
  cases policy with
  | clock =>
    have hnone := h first hm
    rw [Policy.takes_clock, hopen] at hnone
    contradiction
  | workingSet window =>
    exact (chosen_or_not_prefers_passed (h e he)).imp_right fun hn => ⟨rfl, hn⟩

/-- If no loan was open the first time, the hand finds the first that was used then. -/
theorem sweep_again_of_closed (h : ∀ e ∈ es, policy.takes epoch bits e.2 = false)
    (hopen : ∀ e ∈ es, e.2.isOpen bits = false) :
    ∃ n, sweep policy epoch es.length (es.map (pass epoch bits)) none (cooled bits es) =
      ((es.find? fun e => e.2.isHot bits).map Prod.fst, (es.map (pass epoch bits)).rotate n,
        cooled bits es) := by
  have hclosed : ∀ e ∈ es, e.2.isHot bits = false → (pass epoch bits e).2.chosen = true := by
    intro e he hHot
    rw [pass, Loan.passed_of_cold hHot]
    simpa [Loan.isOpen, hHot] using hopen e he
  have hcold : ∀ e ∈ es.map (pass epoch bits), Cold (cooled bits es) e.2.holders := cold_cooled
  cases hused : es.find? fun e => e.2.isHot bits with
  | none =>
    refine ⟨es.length, sweep_of_passed _ (List.forall_mem_map.mpr fun e he =>
      ⟨hcold _ (List.mem_map_of_mem he), .inl ?_⟩)⟩
    exact hclosed e he (by simpa using List.find?_eq_none.mp hused e he)
  | some first =>
    obtain ⟨hHot, before, after, rfl, hbefore⟩ := List.find?_eq_some_iff_append.mp hused
    have hfirst : pass epoch bits first = (first.1, first.2.refreshed epoch) := by
      rw [pass, Loan.passed_of_hot hHot]
    rw [List.map_append, List.map_cons, hfirst] at hcold ⊢
    apply sweep_of_first hcold
    · exact List.forall_mem_map.mpr fun e he =>
        hclosed e (List.mem_append_left _ he) (by simpa using hbefore e he)
    · rfl
    · intro hprefers
      refine List.forall_mem_map.mpr fun e he => ?_
      cases policy with
      | clock => contradiction
      | workingSet window =>
        exact chosen_or_not_prefers_passed
          (h e (List.mem_append_right _ (List.mem_cons_of_mem _ he)))
    · simp

/-- If the policy takes no loan then all marks are cleared. What is found is the first loan that is
open, or else the first that was used, if there is one. -/
theorem sweep_of_none_taken (hnodup : (es.flatMap fun e => e.2.holders).Nodup)
    (h : ∀ e ∈ es, policy.takes epoch bits e.2 = false) :
    ∃ n, sweep policy epoch (2 * es.length) es none bits =
      (((es.find? fun e => e.2.isOpen bits).or (es.find? fun e => e.2.isHot bits)).map Prod.fst,
        (es.map (pass epoch bits)).rotate n, cooled bits es) := by
  -- the second way around begins where the first one began
  have hfirst : sweep policy epoch (es.length + es.length) (es ++ []) none bits = _ :=
    sweep_append_of_passed es.length hnodup h
  rw [List.append_nil, List.nil_append, Option.none_or, ← Nat.two_mul] at hfirst
  rw [hfirst]
  cases hopen : es.find? fun e => e.2.isOpen bits with
  | some first =>
    have hfound := List.find?_some hopen
    exact ⟨es.length, sweep_again_of_open h (List.mem_of_find?_eq_some hopen) hfound _ _⟩
  | none =>
    exact sweep_again_of_closed h fun e he => by simpa using List.find?_eq_none.mp hopen e he

end FrameLedger

end TeachingKernel
