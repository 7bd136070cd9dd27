import TeachingKernel.Proofs.Ledger.Circle

/-!
# No victim twice in a row

A loan that was chosen as a victim stands behind the hand, and only loans that were not chosen come
to stand behind it. So when the next victim is chosen, and nobody has used the frame, the hand
either starts at another frame or finds one that was not chosen on its way. That the victim is
marked is not enough: if all loans are marked the frame under the hand is chosen again.
-/

namespace TeachingKernel

/-- To clear a mark of a holder clears this one mark. -/
class LawfulUseBits (σ : Type) [UseBits σ] : Prop where
  isAccessed_clearAccessed (bits : σ) (h k : Holder) :
    UseBits.isAccessed (UseBits.clearAccessed bits h) k =
      (UseBits.isAccessed bits k && decide (k ≠ h))

instance : LawfulUseBits UseSets where
  isAccessed_clearAccessed bits h k := by
    rw [Bool.eq_iff_iff]
    simp

variable {σ : Type} [UseBits σ] {bits bits' : σ} {holders : List Holder}

def Cold (bits : σ) (holders : List Holder) : Prop :=
  ∀ h ∈ holders, UseBits.isAccessed bits h = false

theorem Cold.takeAccessed (h : Cold bits holders) : takeAccessed holders bits = (false, bits) := by
  induction holders with
  | nil => rfl
  | cons holder holders ih =>
    rw [TeachingKernel.takeAccessed, h holder List.mem_cons_self]
    exact ih fun k hk => h k (List.mem_cons_of_mem _ hk)

variable [LawfulUseBits σ]

theorem Cold.of_cleared (h : Cold bits holders) (hc : Cleared bits bits') : Cold bits' holders := by
  obtain ⟨cleared, rfl⟩ := hc
  induction cleared generalizing bits with
  | nil => exact h
  | cons holder cleared ih =>
    apply ih
    intro k hk
    rw [LawfulUseBits.isAccessed_clearAccessed, h k hk, Bool.false_and]

/-- To take the marks of a frame leaves it cold. -/
theorem cold_takeAccessed (holders : List Holder) (bits : σ) :
    Cold (takeAccessed holders bits).2 holders := by
  induction holders generalizing bits with
  | nil => exact fun h hh => absurd hh List.not_mem_nil
  | cons holder holders ih =>
    have hfirst : ∀ {bits : σ}, UseBits.isAccessed bits holder = false →
        Cold (takeAccessed holders bits).2 (holder :: holders) := by
      intro bits hb k hk
      rcases List.mem_cons.mp hk with rfl | hk
      · have hcold : Cold bits [k] := fun k' hk' => by rwa [List.mem_singleton.mp hk']
        exact hcold.of_cleared (cleared_takeAccessed holders bits).1 k List.mem_cons_self
      · exact ih bits k hk
    unfold takeAccessed
    split
    · apply hfirst
      rw [LawfulUseBits.isAccessed_clearAccessed]
      simp
    · rename_i hb
      exact hfirst (by simpa using hb)

namespace FrameLedger

variable {policy : Policy} {epoch : Nat} {es pre post : List (Nat × Loan)} {slot : Nat}
  {loan : Loan} {fallback : Option Nat}

/-! ## What a sweep finds -/

omit [LawfulUseBits σ] in
/-- Once there is a loan to fall back on, a sweep finds one. -/
theorem isSome_sweep_of_fallback (count : Nat) (h : fallback.isSome = true) :
    (sweep policy epoch count es fallback bits).1.isSome = true := by
  induction count generalizing es fallback bits with
  | zero => exact h
  | succ count ih =>
    cases es with
    | nil => exact h
    | cons e es =>
      unfold sweep
      split
      split
      · exact ih h
      · split
        · exact ih h
        · split
          · rfl
          · exact ih (by simp)

omit [LawfulUseBits σ] in
/-- A sweep finds a loan if it does from the second loan on, whatever is noted of the first. -/
theorem isSome_sweep_cons {count : Nat} {e : Nat × Loan}
    (h : ∀ (last : Nat × Loan) (fallback : Option Nat),
      (sweep policy epoch count (es ++ [last]) fallback
        (takeAccessed e.2.holders bits).2).1.isSome = true) :
    (sweep policy epoch (count + 1) (e :: es) fallback bits).1.isSome = true := by
  unfold sweep
  split
  rename_i isHot bits' htaken
  rw [htaken] at h
  split
  · exact h _ _
  · split
    · exact h _ _
    · split
      · rfl
      · exact h _ _

/-- A sweep that comes to a cold loan that was not chosen finds one. -/
theorem isSome_sweep_of_cold {count : Nat} (hchosen : loan.chosen = false)
    (hcold : Cold bits loan.holders) (hcount : pre.length < count) :
    (sweep policy epoch count (pre ++ (slot, loan) :: post) fallback bits).1.isSome = true := by
  obtain ⟨count, rfl⟩ : ∃ n, count = n + 1 := ⟨count - 1, by omega⟩
  induction pre generalizing count post fallback bits with
  | nil =>
    rw [List.nil_append, sweep, hcold.takeAccessed]
    simp only [Bool.false_eq_true, if_false, hchosen]
    split
    · rfl
    · exact isSome_sweep_of_fallback count (by simp)
  | cons e pre ih =>
    obtain ⟨count, rfl⟩ : ∃ n, count = n + 1 := ⟨count - 1, by simp at hcount; omega⟩
    have hcold' := hcold.of_cleared (cleared_takeAccessed e.2.holders bits).1
    rw [List.cons_append]
    apply isSome_sweep_cons
    intro last fallback
    rw [List.append_assoc, List.cons_append]
    exact ih hcold' _ (by simpa using hcount)

/-- A sweep that comes to a loan that was not chosen, and has the time to come back to it, finds
one: the marks of the loan are cleared the first time. -/
theorem isSome_sweep_of_not_chosen {count : Nat} (hchosen : loan.chosen = false)
    (hcount : 2 * pre.length + post.length + 1 < count) :
    (sweep policy epoch count (pre ++ (slot, loan) :: post) fallback bits).1.isSome = true := by
  obtain ⟨count, rfl⟩ : ∃ n, count = n + 1 := ⟨count - 1, by omega⟩
  induction pre generalizing count post fallback bits with
  | nil =>
    have hcold := cold_takeAccessed loan.holders bits
    rw [List.nil_append, sweep]
    split
    rename_i isHot bits' htaken
    rw [htaken] at hcold
    split
    · have hrefreshed : (loan.refreshed epoch).chosen = false := rfl
      exact isSome_sweep_of_cold hrefreshed hcold (by simpa using hcount)
    · simp only [Bool.false_eq_true, if_false, hchosen]
      split
      · rfl
      · exact isSome_sweep_of_fallback count (by simp)
  | cons e pre ih =>
    obtain ⟨count, rfl⟩ : ∃ n, count = n + 1 := ⟨count - 1, by simp at hcount; omega⟩
    rw [List.cons_append]
    apply isSome_sweep_cons
    intro last fallback
    rw [List.append_assoc, List.cons_append]
    exact ih _ (by simp at hcount ⊢; omega)

/-- A sweep does not find a cold loan that was chosen. -/
theorem sweep_ne_of_chosen (count : Nat)
    (h : ∀ e ∈ es, e.1 = slot → e.2.chosen = true ∧ Cold bits e.2.holders)
    (hf : fallback ≠ some slot) :
    (sweep policy epoch count es fallback bits).1 ≠ some slot := by
  induction count generalizing es fallback bits with
  | zero => exact hf
  | succ count ih =>
    cases es with
    | nil => exact hf
    | cons e es =>
      have hc := (cleared_takeAccessed e.2.holders bits).1
      -- the loan goes to the end, and if it is the chosen one then as it was
      have hturn : ∀ {loan : Loan}, (e.1 = slot → loan = e.2) →
          ∀ e' ∈ es ++ [(e.1, loan)], e'.1 = slot →
            e'.2.chosen = true ∧ Cold (takeAccessed e.2.holders bits).2 e'.2.holders := by
        intro loan hl e' he hs
        have hm : e' ∈ e :: es := by
          rcases List.mem_append.mp he with he | he
          · exact List.mem_cons_of_mem _ he
          · obtain rfl := List.mem_singleton.mp he
            rw [hl hs]
            exact List.mem_cons_self
        exact ⟨(h e' hm hs).1, (h e' hm hs).2.of_cleared hc⟩
      have hown := h e List.mem_cons_self
      unfold sweep
      split
      rename_i isHot bits' htaken
      rw [htaken] at hturn
      split
      · rename_i hot
        refine ih (hturn fun hs => ?_) hf
        rw [(hown hs).2.takeAccessed, Prod.mk.injEq] at htaken
        rw [← htaken.1] at hot
        contradiction
      · split
        · exact ih (hturn fun _ => rfl) hf
        · rename_i hchosen
          have hne : e.1 ≠ slot := fun hs => hchosen (hown hs).1
          split
          · simpa using hne
          · refine ih (hturn fun _ => rfl) ?_
            cases fallback with
            | none => simpa using hne
            | some s => exact hf

/-! ## Between two victims -/

omit [LawfulUseBits σ]

def choices (es : List (Nat × Loan)) : List (PhysAddr × Bool) :=
  es.map fun e => (e.2.frame, e.2.chosen)

structure Behind (v : PhysAddr) (cs : List (PhysAddr × Bool)) : Prop where
  chosen : ∀ c ∈ cs, c.1 = v → c.2 = true
  behind : cs.Pairwise fun c c' => c.1 = v → c'.2 = false

namespace Behind

variable {v frame : PhysAddr} {cs cs' : List (PhysAddr × Bool)}

/-- Loans may end. -/
theorem sublist (h : Behind v cs) (hs : cs'.Sublist cs) : Behind v cs' where
  chosen c hc := h.chosen c (hs.subset hc)
  behind := h.behind.sublist hs

/-- A frame that is lent comes last and is not chosen. -/
theorem append (h : Behind v cs) (hne : frame ≠ v) : Behind v (cs ++ [(frame, false)]) where
  chosen := by
    intro c hc hv
    rcases List.mem_append.mp hc with hc | hc
    · exact h.chosen c hc hv
    · rw [List.mem_singleton.mp hc] at hv
      exact absurd hv hne
  behind := by
    refine List.pairwise_append.mpr ⟨h.behind, List.pairwise_singleton _ _, ?_⟩
    intro c _ c' hc' _
    rw [List.mem_singleton.mp hc']

/-- The last loan. -/
theorem last (hn : v ∉ cs.map Prod.fst) : Behind v (cs ++ [(v, true)]) where
  chosen := by
    intro c hc hv
    rcases List.mem_append.mp hc with hc | hc
    · exact absurd (List.mem_map.mpr ⟨c, hc, hv⟩) hn
    · rw [List.mem_singleton.mp hc]
  behind := by
    refine List.pairwise_append.mpr
      ⟨List.Pairwise.imp_of_mem ?_ (List.pairwise_of_forall fun _ _ => trivial),
        List.pairwise_singleton _ _, ?_⟩
    · intro c _ hc _ _ hv
      exact absurd (List.mem_map.mpr ⟨c, hc, hv⟩) hn
    · intro c hc _ _ hv
      exact absurd (List.mem_map.mpr ⟨c, hc, hv⟩) hn

end Behind

def Operation.Quiet : (op : Operation σ) → op.Answer → Prop
  | .lend .., answer => ∀ victim, answer ≠ Except.error (.outOfFrames victim)
  | .pickVictim _, _ => False
  | _, _ => True

variable {l l' : FrameLedger} {es' : List (Nat × Loan)}

theorem choices_append (xs ys : List (Nat × Loan)) :
    choices (xs ++ ys) = choices xs ++ choices ys := List.map_append

theorem choices_cons (e : Nat × Loan) (es : List (Nat × Loan)) :
    choices (e :: es) = (e.2.frame, e.2.chosen) :: choices es := rfl

theorem map_fst_choices (es : List (Nat × Loan)) :
    (choices es).map Prod.fst = (es.map Prod.snd).map Loan.frame := by
  simp [choices, Function.comp_def]

theorem choices_dismiss (pid : Pid) : (choices (dismiss pid es)).Sublist (choices es) := by
  have hmap : choices (dismiss pid es) = choices (es.filter fun e => !e.2.onlyHeldBy pid) := by
    simp only [choices, dismiss, List.map_map]
    rfl
  rw [hmap]
  exact List.filter_sublist.map _

/-- To let go of a frame may end its loan. -/
theorem Keeps.choices_releaseWhere (h : l.Keeps es) (frame : PhysAddr) (test : Holder → Bool) :
    ∃ answer l' es', l.releaseWhere frame test = .ok (answer, l') ∧ l'.Keeps es' ∧
      (choices es').Sublist (choices es) := by
  rcases h.releaseWhere frame test with ⟨hrun, _⟩ | ⟨xs, slot, loan, ys, rfl, _, hrun⟩
  · exact ⟨_, l, es, hrun, h, .refl _⟩
  · rw [hrun]
    rcases h.letGo test with ⟨hgo, _⟩ | ⟨_, ⟨loans', _, hgo, hk⟩ | ⟨i, loans', _, _, hgo, hk⟩⟩
    · exact ⟨_, l, _, hgo, h, .refl _⟩
    · refine ⟨_, _, _, hgo, hk, ?_⟩
      rw [choices_append, choices_append, choices_cons, choices_cons]
    · refine ⟨_, _, _, hgo, hk, ?_⟩
      rw [choices_append, choices_append, choices_cons]
      exact (List.sublist_cons_self _ _).append_left _

/-- What an operation that chooses no victim does to the loans: some of them may end, or one begins
at the end of the ring. -/
theorem Keeps.call_choices (h : l.Keeps es) (op : Operation σ) :
    ∃ answer l' es', op.call l = .ok (answer, l') ∧ l'.Keeps es' ∧
      (op.Quiet answer → (choices es').Sublist (choices es) ∨
        ∃ frame, frame ∉ (choices es).map Prod.fst ∧
          choices es' = choices es ++ [(frame, false)]) := by
  cases op with
  | lend holder bits =>
    rcases h.lend holder bits with ⟨hrun, _⟩ | ⟨i, slot, loans', hi, _, hrun, hk⟩ |
      ⟨victim, l', bits', es', _, _, hpick, hrun⟩
    · exact ⟨_, l, es, Operation.call_lend hrun, h, fun _ => .inl (.refl _)⟩
    · refine ⟨_, _, _, Operation.call_lend hrun, hk,
        fun _ => .inr ⟨l.pool.frameAddress i, ?_, choices_append _ _⟩⟩
      rw [map_fst_choices, List.mem_map]
      rintro ⟨loan, hm, hf⟩
      exact h.books.frame_ne_of_free hi loan hm hf
    · exact ⟨_, l', es', Operation.call_lend hrun, hpick.keeps,
        fun hquiet => absurd rfl (hquiet victim)⟩
  | share frame holder =>
    rcases h.share frame holder with ⟨hrun, _⟩ | ⟨hrun, _⟩ |
      ⟨xs, slot, loan, ys, loans', rfl, _, _, hrun, hk⟩
    · exact ⟨_, l, es, Operation.call_share_error hrun, h, fun _ => .inl (.refl _)⟩
    · exact ⟨_, l, es, Operation.call_share_error hrun, h, fun _ => .inl (.refl _)⟩
    · refine ⟨_, _, _, Operation.call_share hrun, hk, fun _ => .inl ?_⟩
      rw [choices_append, choices_append, choices_cons, choices_cons]
  | release pid frame =>
    obtain ⟨answer, l', es', hrun, hk, hs⟩ := h.choices_releaseWhere frame (·.pid = pid)
    exact ⟨answer, l', es', hrun, hk, fun _ => .inl hs⟩
  | releaseMapping holder frame =>
    obtain ⟨answer, l', es', hrun, hk, hs⟩ := h.choices_releaseWhere frame (· = holder)
    exact ⟨answer, l', es', hrun, hk, fun _ => .inl hs⟩
  | releaseAll pid =>
    obtain ⟨l', hrun, hk, _⟩ := h.releaseAll pid
    exact ⟨_, l', _, hrun, hk, fun _ => .inl (choices_dismiss pid)⟩
  | pickVictim bits =>
    obtain ⟨victim, l', bits', es', hpick⟩ := h.pickVictim bits
    exact ⟨victim, l', es', Operation.call_pickVictim hpick.run, hpick.keeps,
      fun hquiet => hquiet.elim⟩
  | advance ticks => exact ⟨(), _, es, rfl, h.advance ticks, fun _ => .inl (.refl _)⟩

-- Operations that choose no victim, and after each of which the frame is still lent.
inductive Interlude (σ : Type) [UseBits σ] (v : PhysAddr) : FrameLedger → FrameLedger → Prop
  | nil (l : FrameLedger) : Interlude σ v l l
  | cons {l l₁ l' : FrameLedger} {op : Operation σ} {answer : op.Answer}
      (hcall : op.call l = .ok (answer, l₁)) (hquiet : op.Quiet answer)
      (hlive : l₁.contains v = .ok true) (hr : Interlude σ v l₁ l') : Interlude σ v l l'

theorem Keeps.contains_iff (h : l.Keeps es) (v : PhysAddr) :
    l.contains v = .ok true ↔ ∃ e ∈ es, e.2.frame = v := by
  rcases slot?_cases h.ring v with ⟨hslot, hf⟩ | ⟨xs, slot, loan, ys, rfl, hf, hslot⟩
  · simp only [contains, hslot, bind, Except.bind, pure, Except.pure, Option.isSome_none,
      Except.ok.injEq, Bool.false_eq_true, false_iff, not_exists, not_and]
    exact hf
  · simp only [contains, hslot, bind, Except.bind, pure, Except.pure, Option.isSome_some, true_iff]
    exact ⟨(slot, loan), by simp, hf⟩

/-- A loan is found by its frame. -/
theorem Keeps.loan?_of_mem (h : l.Keeps es) {e : Nat × Loan} (he : e ∈ es) :
    l.loan? e.2.frame = .ok (some e.2) := by
  simp only [loan?, h.toList, bind, Except.bind, pure, Except.pure, Except.ok.injEq]
  obtain ⟨xs, ys, hsplit⟩ := List.append_of_mem (List.mem_map_of_mem (f := Prod.snd) he)
  have hb := h.books
  rw [hsplit] at hb ⊢
  refine List.find?_eq_some_iff_append.mpr ⟨by simp, xs, ys, rfl, fun loan hm => ?_⟩
  have hne : loan.frame ≠ e.2.frame := fun hf => hb.frame_not_elsewhere
    (hf ▸ List.mem_map_of_mem (List.mem_append_left ys hm))
  simpa using hne

/-- In an interlude a frame stays chosen and what is behind it is not. -/
theorem Keeps.interlude {v : PhysAddr} (h : l.Keeps es) (hlive : ∃ e ∈ es, e.2.frame = v)
    (hb : Behind v (choices es)) (hr : Interlude σ v l l') :
    ∃ es', l'.Keeps es' ∧ (∃ e ∈ es', e.2.frame = v) ∧ Behind v (choices es') := by
  induction hr generalizing es with
  | nil l => exact ⟨es, h, hlive, hb⟩
  | @cons l l₁ l' op answer hcall hquiet hlive₁ _ ih =>
    obtain ⟨_, _, es₁, hcall', hk, hchoices⟩ := h.call_choices op
    cases hcall'.symm.trans hcall
    refine ih hk ((hk.contains_iff v).mp hlive₁) ?_
    rcases hchoices hquiet with hs | ⟨frame, hnew, hs⟩
    · exact hb.sublist hs
    · rw [hs]
      apply hb.append
      rintro rfl
      obtain ⟨e, he, hf⟩ := hlive
      exact hnew (List.mem_map.mpr ⟨_, List.mem_map_of_mem he, hf⟩)

variable [LawfulUseBits σ]

/-- The next victim is another frame than the one that was chosen, if there is one and nobody used
the one that was chosen. -/
theorem Keeps.pickVictim_behind {v : PhysAddr} (h : l.Keeps es) (hlive : ∃ e ∈ es, e.2.frame = v)
    (hb : Behind v (choices es)) (hcold : ∀ e ∈ es, e.2.frame = v → Cold bits e.2.holders) :
    ∃ victim l' bits', l.pickVictim bits = .ok (victim, l', bits') ∧
      (victim = some v ↔ l.size = 1) := by
  obtain ⟨⟨start, first⟩, rest, rfl⟩ : ∃ e rest, es = e :: rest :=
    List.exists_cons_of_ne_nil (by rintro rfl; simp at hlive)
  obtain ⟨xs, slot, loan, ys, loans', hslot, hsweep, hrun, _⟩ := pickVictim_eq h.ring bits
  refine ⟨_, _, _, hrun, ?_⟩
  rw [h.size_eq, List.length_map, List.length_cons, Nat.add_eq_right, List.length_eq_zero_iff,
    Option.some_inj]
  -- the loan of the victim as it was before
  have hmem : (slot, loan.terms) ∈ outline ((start, first) :: rest) := by
    have hrot := sweep_isRotated l.policy l.epoch (2 * (rest.length + 1)) ((start, first) :: rest)
      none bits
    rw [hsweep] at hrot
    exact hrot.perm.subset (List.mem_map.mpr ⟨(slot, loan), by simp, rfl⟩)
  obtain ⟨e, he, ht⟩ := List.mem_map.mp hmem
  simp only [Loan.terms, Prod.mk.injEq] at ht
  obtain ⟨hs, hframe, _⟩ := ht
  have hunique : ∀ e' ∈ (start, first) :: rest, e'.1 = e.1 → e' = e := fun e' he' hs =>
    List.inj_on_of_nodup_map h.ring.nodup he' he hs
  constructor
  · intro hv
    have hown : ∀ e' ∈ (start, first) :: rest, e'.1 = slot →
        e'.2.chosen = true ∧ Cold bits e'.2.holders := by
      intro e' he' hs'
      obtain rfl := hunique e' he' (hs'.trans hs.symm)
      exact ⟨hb.chosen _ (List.mem_map_of_mem he) (hframe.trans hv), hcold e' he (hframe.trans hv)⟩
    have hnot : (sweep l.policy l.epoch (2 * (rest.length + 1)) ((start, first) :: rest) none
        bits).1 ≠ some slot := sweep_ne_of_chosen _ hown (Option.some_ne_none slot).symm
    cases hfound : (sweep l.policy l.epoch (2 * (rest.length + 1)) ((start, first) :: rest) none
        bits).1 with
    | some s =>
      rw [hfound, Option.getD_some] at hslot
      rw [hfound, hslot] at hnot
      exact absurd rfl hnot
    | none =>
      -- the victim is under the hand, and behind it nothing is chosen
      rw [hfound, Option.getD_none] at hslot
      obtain rfl := hunique _ List.mem_cons_self (hslot.symm.trans hs.symm)
      cases rest with
      | nil => rfl
      | cons e' rest =>
        have hnext : e'.2.chosen = false :=
          (List.pairwise_cons.mp hb.behind).1 _ List.mem_cons_self (hframe.trans hv)
        have hsome : (sweep l.policy l.epoch (2 * ((e' :: rest).length + 1))
            ([(start, first)] ++ (e'.1, e'.2) :: rest) none bits).1.isSome = true :=
          isSome_sweep_of_not_chosen hnext (by simp; omega)
        rw [List.singleton_append, hfound] at hsome
        contradiction
  · rintro rfl
    obtain ⟨e', he', hv⟩ := hlive
    rw [← hframe, ← hv, List.mem_singleton.mp he, List.mem_singleton.mp he']

omit [LawfulUseBits σ] in
/-- A victim is chosen, and the hand is right behind it. -/
theorem Picks.behind {v : PhysAddr} (hpick : Picks l es bits (some v) l' bits' es')
    (h : l.Keeps es) : (∃ e ∈ es', e.2.frame = v) ∧ Behind v (choices es') := by
  cases es with
  | nil => exact absurd (hpick.eq_none_iff.mpr rfl) (by simp)
  | cons e es =>
    obtain ⟨xs, slot, loan, ys, hv, _, rfl⟩ := hpick.exists_sweep h
    obtain rfl := Option.some_inj.mp hv
    refine ⟨⟨(slot, { loan with chosen := true }), by simp, rfl⟩, ?_⟩
    have hnodup := hpick.keeps.books.frames_nodup
    rw [← map_fst_choices, choices_append, List.map_append] at hnodup
    rw [choices_append]
    exact Behind.last fun hm => (List.nodup_append.mp hnodup).2.2 _ hm _ List.mem_cons_self rfl

/-- No victim is chosen twice in a row. When a victim was chosen, and then frames were lent, shared
and released in any order while the victim stayed lent, the next victim is another frame as long as
no holder of the first one is marked accessed, unless it is the only frame that is lent. -/
theorem victim_not_repeated {base : PhysAddr} {total : Nat} {pool : PagePool}
    (hp : PagePool.create base total = .ok pool)
    (hfits : base.toNat + total * pageSize ≤ addressBound) (policy : Policy)
    (ops : List (Operation σ)) {l l₁ l₂ : FrameLedger} {v : PhysAddr} {bits₁ bits₂ : σ}
    (hrun : performAll ops (fresh pool policy) = .ok l)
    (hpick : l.pickVictim bits = .ok (some v, l₁, bits₁)) (hbetween : Interlude σ v l₁ l₂)
    (hcold : ∀ loan, l₂.loan? v = .ok (some loan) → Cold bits₂ loan.holders) :
    ∃ victim l₃ bits₃, l₂.pickVictim bits₂ = .ok (victim, l₃, bits₃) ∧
      (victim = some v ↔ l₂.size = 1) := by
  obtain ⟨hk, _⟩ := keeps_create hp hfits policy
  obtain ⟨_, es, hrun', hk', _⟩ := hk.performAll ops
  cases hrun'.symm.trans hrun
  obtain ⟨_, _, _, es₁, hpicks⟩ := hk'.pickVictim bits
  cases hpicks.run.symm.trans hpick
  obtain ⟨hlive, hb⟩ := hpicks.behind hk'
  obtain ⟨es₂, hk₂, hlive₂, hb₂⟩ := hpicks.keeps.interlude hlive hb hbetween
  refine hk₂.pickVictim_behind hlive₂ hb₂ fun e he hv => hcold e.2 ?_
  rw [← hv]
  exact hk₂.loan?_of_mem he

set_option synthInstance.maxSize 512 in
/-- The first of two frames is chosen. Then a third is lent and the second comes back, so that the
hand is at the first again. The third was used, and it is the next victim all the same. -/
theorem victim_not_repeated_of_three_frames :
    PagePool.create (.ofNat poolBase) 3 = .ok (PagePool.user 3) ∧
      (Address.ofNat poolBase : PhysAddr).toNat + 3 * pageSize ≤ addressBound ∧
      ∃ l l₁ l₂ : FrameLedger,
        performAll [.lend ⟨⟨1⟩, .ofNat 0x1000⟩ ({} : UseSets), .lend ⟨⟨2⟩, .ofNat 0x1000⟩ {}]
            (fresh (PagePool.user 3) .clock) = .ok l ∧
        l.pickVictim ({} : UseSets) = .ok (some (.ofNat poolBase), l₁, {}) ∧
        Interlude UseSets (.ofNat poolBase) l₁ l₂ ∧
        l₂.handFrame? = .ok (some (.ofNat poolBase)) ∧ l₂.size = 2 ∧
        ∃ victim l₃ bits₃,
          l₂.pickVictim (UseSets.access {} ⟨⟨3⟩, .ofNat 0x1000⟩) = .ok (victim, l₃, bits₃) ∧
            (victim = some (.ofNat poolBase) ↔ l₂.size = 1) := by
  have hp : PagePool.create (.ofNat poolBase) 3 = .ok (PagePool.user 3) := rfl
  have hfits : (Address.ofNat poolBase : PhysAddr).toNat + 3 * pageSize ≤ addressBound := by decide
  -- the answers of the whole run, computed at once
  have hall : (do
      let l ← performAll [.lend ⟨⟨1⟩, .ofNat 0x1000⟩ ({} : UseSets),
        .lend ⟨⟨2⟩, .ofNat 0x1000⟩ {}] (fresh (PagePool.user 3) .clock)
      let (victim, l₁, bits) ← l.pickVictim ({} : UseSets)
      let (lent, middle, _) ← l₁.lend ⟨⟨3⟩, .ofNat 0x1000⟩ ({} : UseSets)
      let live ← middle.contains (.ofNat poolBase)
      let (_, l₂) ← middle.release ⟨2⟩ (.ofNat (poolBase + pageSize))
      let live' ← l₂.contains (.ofNat poolBase)
      let hand ← l₂.handFrame?
      let loan ← l₂.loan? (.ofNat poolBase)
      return ((victim, bits, lent), (live, live', hand), loan.map Loan.holders, l₂.size)) =
      .ok ((some (.ofNat poolBase), {}, .ok (.ofNat (poolBase + 2 * pageSize))),
        (true, true, some (.ofNat poolBase)), some [⟨⟨1⟩, .ofNat 0x1000⟩], 2) := by
    decide +kernel
  obtain ⟨l, hrun, hall⟩ := Checked.bind_eq_ok.mp hall
  obtain ⟨⟨victim, l₁, bits⟩, hpick, hall⟩ := Checked.bind_eq_ok.mp hall
  obtain ⟨⟨lent, middle, _⟩, hlend, hall⟩ := Checked.bind_eq_ok.mp hall
  obtain ⟨live, hlive, hall⟩ := Checked.bind_eq_ok.mp hall
  obtain ⟨⟨release, l₂⟩, hrelease, hall⟩ := Checked.bind_eq_ok.mp hall
  obtain ⟨live', hlive', hall⟩ := Checked.bind_eq_ok.mp hall
  obtain ⟨hand, hhand, hall⟩ := Checked.bind_eq_ok.mp hall
  obtain ⟨loan, hloan, hall⟩ := Checked.bind_eq_ok.mp hall
  simp only [pure, Except.pure, Except.ok.injEq, Prod.mk.injEq] at hall
  obtain ⟨⟨rfl, rfl, rfl⟩, ⟨rfl, rfl, rfl⟩, hholders, hsize⟩ := hall
  have hlends : (Operation.lend ⟨⟨3⟩, .ofNat 0x1000⟩ ({} : UseSets)).call l₁ =
      .ok (Except.ok (.ofNat (poolBase + 2 * pageSize)), middle) := Operation.call_lend hlend
  have hreleases : (Operation.release ⟨2⟩ (.ofNat (poolBase + pageSize)) : Operation UseSets).call
      middle = .ok (release, l₂) := hrelease
  have hbetween : Interlude UseSets (.ofNat poolBase) l₁ l₂ :=
    .cons hlends (by rintro victim ⟨⟩) hlive (.cons hreleases trivial hlive' (.nil l₂))
  refine ⟨hp, hfits, l, l₁, l₂, hrun, hpick, hbetween, hhand, hsize,
    victim_not_repeated hp hfits .clock _ hrun hpick hbetween fun loan' hl h hm => ?_⟩
  -- the only holder of the first frame is not marked
  cases hloan.symm.trans hl
  obtain rfl : h = ⟨⟨1⟩, .ofNat 0x1000⟩ := by
    rw [Option.map_some, Option.some_inj] at hholders
    rw [hholders] at hm
    exact List.mem_singleton.mp hm
  decide

end FrameLedger

end TeachingKernel
