import Mathlib.Data.List.Rotate
import TeachingKernel.FrameLedger.Victim
import TeachingKernel.Proofs.Ring.Operations

/-!
# The sweep of the hand

The scan for a victim, on the list of the loans instead of the ring: the first loan is looked at and
goes to the end of the list, until one is found. The scan of a ring is the sweep of its entries.
Nothing is lost on the way, and no loan changes its frame or its holders.
-/

namespace TeachingKernel

/-- What a loan says of its frame, leaving aside when the frame was used. -/
def Loan.terms (loan : Loan) : PhysAddr × List Holder := (loan.frame, loan.holders)

namespace FrameLedger

/-- The terms of the loans and the slots they are in. -/
def outline (es : List (Nat × Loan)) : List (Nat × PhysAddr × List Holder) :=
  es.map fun e => (e.1, e.2.terms)

theorem outline_append (xs ys : List (Nat × Loan)) :
    outline (xs ++ ys) = outline xs ++ outline ys := List.map_append

theorem outline_cons (e : Nat × Loan) (es : List (Nat × Loan)) :
    outline (e :: es) = (e.1, e.2.terms) :: outline es := rfl

theorem map_fst_outline (es : List (Nat × Loan)) :
    (outline es).map Prod.fst = es.map Prod.fst := by
  simp [outline, Function.comp_def]

theorem map_snd_outline (es : List (Nat × Loan)) :
    (outline es).map Prod.snd = (es.map Prod.snd).map Loan.terms := by
  simp [outline, Function.comp_def]

variable {σ : Type} [UseBits σ] {policy : Policy} {epoch : Nat}

/-- Looks at `count` loans of a list, as `scan` does in a ring. -/
def sweep (policy : Policy) (epoch : Nat) :
    Nat → List (Nat × Loan) → Option Nat → σ → Option Nat × List (Nat × Loan) × σ
  | 0, es, fallback, bits => (fallback, es, bits)
  | _ + 1, [], fallback, bits => (fallback, [], bits)
  | count + 1, (slot, loan) :: es, fallback, bits =>
    let (isHot, bits) := takeAccessed loan.holders bits
    if isHot then sweep policy epoch count (es ++ [(slot, loan.refreshed epoch)]) fallback bits
    else if loan.chosen then sweep policy epoch count (es ++ [(slot, loan)]) fallback bits
    else if policy.prefers epoch bits loan then (some slot, (slot, loan) :: es, bits)
    else sweep policy epoch count (es ++ [(slot, loan)]) (fallback.or (some slot)) bits

/-- The scan of a ring is the sweep of its entries. -/
theorem scan_eq_sweep (policy : Policy) (epoch count : Nat) (fallback : Option Nat) (bits : σ)
    {slot : Nat} {es : List (Nat × Loan)} {loans : CircularList Loan} (h : loans.Cycle es)
    (hs : es.head?.map Prod.fst = some slot) :
    ∃ loans', scan policy epoch count slot fallback loans bits =
        .ok ((sweep policy epoch count es fallback bits).1, loans',
          (sweep policy epoch count es fallback bits).2.2) ∧
      loans'.hand = loans.hand ∧
      loans'.Cycle (sweep policy epoch count es fallback bits).2.1 := by
  induction count generalizing slot es fallback loans bits with
  | zero => exact ⟨loans, rfl, rfl, h⟩
  | succ count ih =>
    obtain ⟨⟨s, loan⟩, es, rfl⟩ : ∃ e rest, es = e :: rest := by
      cases es with
      | nil => simp at hs
      | cons e rest => exact ⟨e, rest, rfl⟩
    obtain rfl : s = slot := by simpa using hs
    obtain ⟨n, hn, rfl⟩ := h.node_of_mem List.mem_cons_self
    have hrotate : ∀ {value : Loan}, loans.Cycle ((s, value) :: es) →
        loans.Cycle (es ++ [(s, value)]) := fun {value} hc => by
      have hc' : loans.Cycle ([(s, value)] ++ es) := hc
      exact hc'.rotate
    have hnext := h.next_eq hn
    obtain ⟨⟨isHot, bits'⟩, ht⟩ : ∃ x, takeAccessed n.value.holders bits = x := ⟨_, rfl⟩
    simp only [scan, sweep, hn, ht, bind, Except.bind, pure, Except.pure]
    by_cases hHot : isHot = true
    · have h' : loans.Cycle ([] ++ (s, n.value) :: es) := h
      obtain ⟨loans₁, hm, hhand, hc⟩ := h'.modify (·.refreshed epoch)
      have hc' : loans₁.Cycle ([(s, n.value.refreshed epoch)] ++ es) := hc
      simp only [hHot, if_true, hm]
      have hnext' : (es ++ [(s, n.value.refreshed epoch)]).head?.map Prod.fst = some n.next := by
        rw [← hnext]
        cases es <;> rfl
      obtain ⟨loans₂, hscan, hhand₂, hc₂⟩ := ih fallback bits' hc'.rotate hnext'
      exact ⟨loans₂, hscan, hhand₂.trans hhand, hc₂⟩
    · simp only [hHot, Bool.false_eq_true, if_false]
      by_cases hChosen : n.value.chosen = true
      · simp only [hChosen, if_true]
        exact ih fallback bits' (hrotate h) hnext
      · simp only [hChosen, Bool.false_eq_true, if_false]
        by_cases hPrefers : policy.prefers epoch bits' n.value = true
        · simp only [hPrefers, if_true]
          exact ⟨loans, rfl, rfl, h⟩
        · simp only [hPrefers, Bool.false_eq_true, if_false]
          exact ih _ bits' (hrotate h) hnext

/-! ## What a sweep keeps -/

/-- The loans come to stand in another place of the circle, with the terms they had. -/
theorem sweep_isRotated (policy : Policy) (epoch count : Nat) (es : List (Nat × Loan))
    (fallback : Option Nat) (bits : σ) :
    (outline (sweep policy epoch count es fallback bits).2.1).IsRotated (outline es) := by
  induction count generalizing es fallback bits with
  | zero => exact List.IsRotated.refl _
  | succ count ih =>
    cases es with
    | nil => exact List.IsRotated.refl _
    | cons e es =>
      have hrotate : ∀ loan : Loan, loan.terms = e.2.terms →
          (outline (es ++ [(e.1, loan)])).IsRotated (outline (e :: es)) := by
        intro loan hl
        rw [outline_append, outline_cons, outline_cons, hl]
        exact List.isRotated_append
      unfold sweep
      split
      split
      · exact (ih _ _ _).trans (hrotate _ rfl)
      · split
        · exact (ih _ _ _).trans (hrotate _ rfl)
        · split
          · exact List.IsRotated.refl _
          · exact (ih _ _ _).trans (hrotate _ rfl)

/-- A loan was last used at some time up to now. -/
theorem sweep_lastUsed (policy : Policy) (count : Nat) {es : List (Nat × Loan)}
    (fallback : Option Nat) (bits : σ)
    (h : ∀ e ∈ es, e.2.lastUsed ≤ epoch) :
    ∀ e ∈ (sweep policy epoch count es fallback bits).2.1, e.2.lastUsed ≤ epoch := by
  induction count generalizing es fallback bits with
  | zero => exact h
  | succ count ih =>
    cases es with
    | nil => exact h
    | cons e es =>
      have hrotate : ∀ loan : Loan, loan.lastUsed ≤ epoch →
          ∀ e' ∈ es ++ [(e.1, loan)], e'.2.lastUsed ≤ epoch := by
        intro loan hl e' he
        rcases List.mem_append.mp he with he | he
        · exact h e' (List.mem_cons_of_mem _ he)
        · obtain rfl := List.mem_singleton.mp he
          exact hl
      have hself : e.2.lastUsed ≤ epoch := h e List.mem_cons_self
      unfold sweep
      split
      split
      · exact ih _ _ (hrotate _ (Nat.le_refl _))
      · split
        · exact ih _ _ (hrotate _ hself)
        · split
          · exact h
          · exact ih _ _ (hrotate _ hself)

theorem sweep_slots_mem (policy : Policy) (epoch count : Nat) (es : List (Nat × Loan))
    (fallback : Option Nat) (bits : σ) {slot : Nat} :
    slot ∈ (sweep policy epoch count es fallback bits).2.1.map Prod.fst ↔
      slot ∈ es.map Prod.fst := by
  rw [← map_fst_outline, ← map_fst_outline es]
  exact ((sweep_isRotated policy epoch count es fallback bits).map Prod.fst).mem_iff

/-- What is found is the slot of a loan. -/
theorem sweep_found_mem (policy : Policy) (epoch count : Nat) {slot : Nat}
    {es : List (Nat × Loan)} (fallback : Option Nat) (bits : σ)
    (hf : ∀ s, fallback = some s → s ∈ es.map Prod.fst)
    (h : (sweep policy epoch count es fallback bits).1 = some slot) : slot ∈ es.map Prod.fst := by
  induction count generalizing es fallback bits with
  | zero => exact hf slot h
  | succ count ih =>
    cases es with
    | nil => exact hf slot h
    | cons e es =>
      have hrotate : ∀ (loan : Loan) (s : Nat),
          s ∈ (es ++ [(e.1, loan)]).map Prod.fst ↔ s ∈ (e :: es).map Prod.fst := by
        intro loan s
        simp only [List.map_append, List.map_cons, List.map_nil, List.mem_append, List.mem_cons,
          List.not_mem_nil, or_false]
        exact or_comm
      unfold sweep at h
      split at h
      split at h
      · exact (hrotate _ slot).mp (ih _ _ (fun s hs => (hrotate _ s).mpr (hf s hs)) h)
      · split at h
        · exact (hrotate _ slot).mp (ih _ _ (fun s hs => (hrotate _ s).mpr (hf s hs)) h)
        · split at h
          · obtain rfl : e.1 = slot := by simpa using h
            exact List.mem_cons_self
          · refine (hrotate _ slot).mp (ih _ _ (fun s hs => (hrotate _ s).mpr ?_) h)
            cases hfb : fallback with
            | none =>
              rw [hfb] at hs
              obtain rfl : e.1 = s := by simpa using hs
              exact List.mem_cons_self
            | some t =>
              rw [hfb] at hs
              exact hf s (hfb.trans (by simpa using hs))

/-- Of the marks of use, a sweep does nothing but clear accessed marks. -/
theorem sweep_bits {p : σ → Prop} (hp : ∀ bits h, p bits → p (UseBits.clearAccessed bits h))
    (policy : Policy) (epoch count : Nat) (es : List (Nat × Loan)) (fallback : Option Nat)
    {bits : σ} (h : p bits) : p (sweep policy epoch count es fallback bits).2.2 := by
  have htake : ∀ (holders : List Holder) (bits : σ), p bits → p (takeAccessed holders bits).2 := by
    intro holders
    induction holders with
    | nil => exact fun _ h => h
    | cons holder holders ih =>
      intro bits h
      unfold takeAccessed
      split
      · exact ih _ (hp bits holder h)
      · exact ih _ h
  induction count generalizing es fallback bits with
  | zero => exact h
  | succ count ih =>
    cases es with
    | nil => exact h
    | cons e es =>
      have htaken := htake e.2.holders bits h
      unfold sweep
      split
      rename_i isHot bits' heq
      rw [heq] at htaken
      split
      · exact ih _ _ htaken
      · split
        · exact ih _ _ htaken
        · split
          · exact htaken
          · exact ih _ _ htaken

end FrameLedger

end TeachingKernel
