import TeachingKernel.Proofs.Ledger.Circle
import TeachingKernel.Proofs.Ledger.Lends

/-!
# Teardown

A process that goes lets go of all its frames at once. It may as well let go of its mappings one by
one, in any order: a frame it shares with itself under several addresses, or with others, and the
frame under the hand, come to the same end either way. What one release does to the loans is told by
a test on holders, and tests that were passed one after the other can be passed at once.

Main statement: `teardown_in_any_order`.
-/

namespace TeachingKernel

/-- What is left of a loan after the holders that pass the test have gone; nothing if no other holds
the frame. -/
def Loan.left? (test : Holder → Bool) (loan : Loan) : Option Loan :=
  if loan.holders.all test then none
  else some { loan with holders := loan.holders.filter fun g => !test g }

namespace Loan

variable {loan loan' : Loan} {test test' : Holder → Bool}

theorem left?_eq_some_iff :
    loan.left? test = some loan' ↔ (∃ g ∈ loan.holders, test g = false) ∧
      loan' = { loan with holders := loan.holders.filter fun g => !test g } := by
  simp only [Loan.left?, Option.ite_none_left_eq_some, Bool.not_eq_true, List.all_eq_false,
    Option.some.injEq, eq_comm (a := loan')]

/-- Of the holders that are left, some leave. -/
theorem left?_bind_left? (loan : Loan) (test test' : Holder → Bool) :
    (loan.left? test).bind (Loan.left? test') = loan.left? fun g => test g || test' g := by
  unfold Loan.left?
  split
  · rename_i hall
    have : (loan.holders.all fun g => test g || test' g) = true := by
      rw [List.all_eq_true] at hall ⊢
      intro g hg
      rw [hall g hg, Bool.true_or]
    rw [if_pos this]
    rfl
  · simp only [Option.bind_some, List.all_filter, List.filter_filter, Bool.not_not, Bool.not_or,
      Bool.and_comm]

theorem left?_of_none (hne : loan.holders ≠ []) (h : ∀ g ∈ loan.holders, test g = false) :
    loan.left? test = some loan := by
  obtain ⟨g, hg⟩ := List.exists_mem_of_ne_nil _ hne
  have hkept : (loan.holders.filter fun g => !test g) = loan.holders := by
    rw [List.filter_eq_self]
    intro g hg
    rw [h g hg, Bool.not_false]
  rw [left?_eq_some_iff, hkept]
  exact ⟨⟨g, hg, h g hg⟩, rfl⟩

/-- What is left does not depend on what the test says of others than the holders. -/
theorem left?_congr (h : ∀ g ∈ loan.holders, test g = test' g) :
    loan.left? test = loan.left? test' := by
  have hall : loan.holders.all test = loan.holders.all test' := by
    rw [Bool.eq_iff_iff, List.all_eq_true, List.all_eq_true]
    exact forall₂_congr fun g hg => by rw [h g hg]
  have hrest : (loan.holders.filter fun g => !test g) = loan.holders.filter fun g => !test' g :=
    List.filter_congr fun g hg => by rw [h g hg]
  simp only [left?, hall, hrest]

/-- A holder that occurs once goes by being struck out. -/
theorem left?_holder (hd : loan.holders.Nodup) (holder : Holder) :
    loan.left? (· = holder) =
      if loan.holders.eraseP (· = holder) = [] then none
      else some { loan with holders := loan.holders.eraseP (· = holder) } := by
  have hrest : loan.holders.eraseP (· = holder) =
      loan.holders.filter fun g => !decide (g = holder) := by
    have := hd.erase_eq_filter holder
    rwa [List.erase_eq_eraseP'] at this
  have hall : (loan.holders.all (· = holder)) = true ↔
      (loan.holders.filter fun g => !decide (g = holder)) = [] := by
    simp [List.filter_eq_nil_iff]
  simp only [left?, hall, hrest]

end Loan

namespace FrameLedger

/-- The mappings by which a process holds frames, each with its frame. -/
def referencesOf (pid : Pid) (loans : List Loan) : List (Holder × PhysAddr) :=
  loans.flatMap fun loan => (loan.holders.filter (·.pid = pid)).map (·, loan.frame)

def releaseEach :
    List (Holder × PhysAddr) → FrameLedger → Checked (List Release × FrameLedger)
  | [], l => return ([], l)
  | (holder, frame) :: refs, l => do
    let (answer, l) ← l.releaseMapping holder frame
    let (answers, l) ← releaseEach refs l
    return (answer :: answers, l)

/-- Nothing tells the ledgers apart but the order in which their vacant slots will be used again:
the same loans, the same counters and the same bytes in every frame. -/
structure Agree (l l' : FrameLedger) : Prop extends SameLoans l l' where
  policy_eq : l'.policy = l.policy
  epoch_eq : l'.epoch = l.epoch
  stats_eq : l'.stats = l.stats
  page_eq : ∀ a, l'.pool.page? a = l.pool.page? a

structure GaveBack (count : Nat) (l l' : FrameLedger) : Prop where
  policy_eq : l'.policy = l.policy
  epoch_eq : l'.epoch = l.epoch
  stats_eq : l'.stats = { l.stats with returned := l.stats.returned + count }
  pages : l.pool.SamePages l'.pool

def leave (test : Holder → Bool) (es : List (Nat × Loan)) : List (Nat × Loan) :=
  es.filterMap fun e => (e.2.left? test).map (e.1, ·)

variable {l l' l'' : FrameLedger} {es xs ys : List (Nat × Loan)} {slot : Nat} {loan : Loan}
  {holder g : Holder} {frame f : PhysAddr} {test : Holder → Bool} {pid : Pid} {m n : Nat}

namespace GaveBack

theorem refl (l : FrameLedger) : GaveBack 0 l l := ⟨rfl, rfl, rfl, .refl _⟩

theorem trans (h : GaveBack m l l') (h' : GaveBack n l' l'') : GaveBack (m + n) l l'' where
  policy_eq := h'.policy_eq.trans h.policy_eq
  epoch_eq := h'.epoch_eq.trans h.epoch_eq
  stats_eq := by rw [h'.stats_eq, h.stats_eq, Nat.add_assoc]
  pages := h.pages.trans h'.pages

/-- Ledgers that keep the same loans after they gave back frames of the same ledger agree, and they
gave back equally many. -/
theorem agree (h : GaveBack m l l') (h' : GaveBack n l l'') (hk : l'.Keeps es)
    (hk' : l''.Keeps es) : m = n ∧ Agree l' l'' := by
  have hcount : m = n := by
    have hb := hk.books.balance
    have hb' := hk'.books.balance
    rw [h.stats_eq] at hb
    rw [h'.stats_eq] at hb'
    simp only at hb hb'
    omega
  have hbase : l''.pool.base = l'.pool.base := h'.pages.base_eq.trans h.pages.base_eq.symm
  have htotal : l''.pool.total = l'.pool.total := h'.pages.total_eq.trans h.pages.total_eq.symm
  refine ⟨hcount, hk.sameLoans hk' hbase htotal, ?_, ?_, ?_, fun a => ?_⟩
  · rw [h.policy_eq, h'.policy_eq]
  · rw [h.epoch_eq, h'.epoch_eq]
  · rw [h.stats_eq, h'.stats_eq, hcount]
  · rw [h.pages.page_eq, h'.pages.page_eq]

end GaveBack

/-! ## Holders that have gone -/

theorem leave_append : leave test (xs ++ ys) = leave test xs ++ leave test ys :=
  List.filterMap_append

/-- Nobody goes. -/
theorem leave_of_none (h : ∀ e ∈ es, e.2.holders ≠ [] ∧ ∀ g ∈ e.2.holders, test g = false) :
    leave test es = es := by
  have hsame : ∀ e ∈ es, (e.2.left? test).map (e.1, ·) = some e := by
    intro e he
    rw [Loan.left?_of_none (h e he).1 (h e he).2]
    rfl
  exact (List.filterMap_congr hsame).trans List.filterMap_some

theorem leave_middle (hxs : leave test xs = xs) (hys : leave test ys = ys) :
    leave test (xs ++ (slot, loan) :: ys) =
      xs ++ ((loan.left? test).map (slot, ·)).toList ++ ys := by
  have hone : leave test [(slot, loan)] = ((loan.left? test).map (slot, ·)).toList := by
    cases h : loan.left? test <;> simp [leave, h]
  rw [← List.singleton_append, leave_append, leave_append, hxs, hys, hone, List.append_assoc]

theorem leave_leave (test test' : Holder → Bool) (es : List (Nat × Loan)) :
    leave test' (leave test es) = leave (fun g => test g || test' g) es := by
  unfold leave
  rw [List.filterMap_filterMap]
  congr 1
  funext e
  rw [← Loan.left?_bind_left?, Option.bind_map, Option.map_bind]
  rfl

/-- Who is left does not depend on what the tests say of those who hold nothing. -/
theorem leave_congr {test' : Holder → Bool}
    (h : ∀ e ∈ es, ∀ g ∈ e.2.holders, test g = test' g) : leave test es = leave test' es :=
  List.filterMap_congr fun e he => by rw [Loan.left?_congr (h e he)]

theorem lends_leave : Lends (leave test es) f g ↔ Lends es f g ∧ test g = false := by
  constructor
  · rintro ⟨e', he', rfl, hg⟩
    obtain ⟨e, he, hleft⟩ := List.mem_filterMap.mp he'
    obtain ⟨loan, hloan, rfl⟩ := Option.map_eq_some_iff.mp hleft
    obtain ⟨_, rfl⟩ := Loan.left?_eq_some_iff.mp hloan
    obtain ⟨hm, ht⟩ := List.mem_filter.mp hg
    exact ⟨⟨e, he, rfl, hm⟩, by simpa using ht⟩
  · rintro ⟨⟨e, he, rfl, hg⟩, ht⟩
    have hloan := Loan.left?_eq_some_iff.mpr ⟨⟨g, hg, ht⟩, rfl⟩
    refine ⟨_, List.mem_filterMap.mpr ⟨e, he, Option.map_eq_some_iff.mpr ⟨_, hloan, rfl⟩⟩, rfl, ?_⟩
    exact List.mem_filter.mpr ⟨hg, by rw [ht, Bool.not_false]⟩

theorem leave_pid (pid : Pid) (es : List (Nat × Loan)) :
    leave (·.pid = pid) es = dismiss pid es := by
  induction es with
  | nil => rfl
  | cons e es ih =>
    unfold leave dismiss at ih ⊢
    rw [List.filterMap_cons, List.filter_cons, ih]
    by_cases hall : e.2.onlyHeldBy pid = true
    · have hleft : e.2.left? (·.pid = pid) = none := if_pos hall
      simp only [hleft, hall, Option.map_none, Bool.not_true, Bool.false_eq_true, if_false]
    · have hleft : e.2.left? (·.pid = pid) = some (e.2.without pid) := by
        simp only [Loan.left?, Loan.without, decide_not]
        exact if_neg hall
      simp only [hleft, hall, Option.map_some, Bool.not_false, if_true, List.map_cons]

/-! ## Letting go of one mapping -/

/-- A holder that goes leaves the other loans as they are. -/
theorem Keeps.leave_holder (h : l.Keeps (xs ++ (slot, loan) :: ys)) (hm : holder ∈ loan.holders) :
    leave (· = holder) (xs ++ (slot, loan) :: ys) =
      xs ++ ((loan.left? (· = holder)).map (slot, ·)).toList ++ ys := by
  have hb := h.books
  rw [List.map_append, List.map_cons] at hb
  have hkept : ∀ e ∈ xs ++ ys, e.2.holders ≠ [] ∧
      ∀ g ∈ e.2.holders, decide (g = holder) = false := by
    intro e he
    constructor
    · have hsub : (xs ++ ys).Sublist (xs ++ (slot, loan) :: ys) :=
        (List.sublist_cons_self _ ys).append_left xs
      exact h.books.held e.2 (List.mem_map_of_mem (hsub.subset he))
    · intro g hg
      rw [decide_eq_false_iff_not]
      rintro rfl
      apply hb.holder_not_elsewhere hm
      rw [← List.map_append, List.flatMap_map]
      exact List.mem_flatMap.mpr ⟨e, he, hg⟩
  exact leave_middle (leave_of_none fun e he => hkept e (List.mem_append_left ys he))
    (leave_of_none fun e he => hkept e (List.mem_append_right xs he))

/-- To let go of a mapping takes its holder off the loans; the ledger says truly whether the frame
went back to the pool. -/
theorem Keeps.releaseMapping_of_lends (h : l.Keeps es) (hl : Lends es frame holder) :
    ∃ answer l', l.releaseMapping holder frame = .ok (answer, l') ∧
      l'.Keeps (leave (· = holder) es) ∧ GaveBack ([answer].count .freed) l l' := by
  rcases h.releaseWhere frame (· = holder) with ⟨_, hf⟩ | ⟨xs, slot, loan, ys, rfl, rfl, hwhere⟩
  · obtain ⟨e, he, hc, _⟩ := hl
    exact absurd hc (hf e he)
  · have hm : holder ∈ loan.holders := by
      rcases lends_middle.mp hl with ⟨_, hm⟩ | hother
      · exact hm
      · exact absurd hother (h.not_lends_elsewhere holder)
    rw [h.leave_holder hm, Loan.left?_holder h.nodup_holders]
    rcases h.letGo (· = holder) with ⟨_, hn⟩ |
      ⟨_, ⟨loans', hne, hgo, hk⟩ | ⟨i, loans', hnil, _, hgo, hk⟩⟩
    · simpa using hn holder hm
    · refine ⟨_, _, hwhere.trans hgo, ?_, rfl, rfl, rfl, .refl _⟩
      rw [if_neg hne]
      simpa using hk
    · refine ⟨_, _, hwhere.trans hgo, ?_, rfl, rfl, rfl, PagePool.samePages_takeBack i⟩
      rw [if_pos hnil]
      simpa using hk

/-- To let go of mappings one after the other takes all their holders off the loans. -/
theorem Keeps.releaseEach {refs : List (Holder × PhysAddr)} (h : l.Keeps es)
    (hn : (refs.map Prod.fst).Nodup) (hl : ∀ ref ∈ refs, Lends es ref.2 ref.1) :
    ∃ answers l', FrameLedger.releaseEach refs l = .ok (answers, l') ∧
      l'.Keeps (leave (· ∈ refs.map Prod.fst) es) ∧ GaveBack (answers.count .freed) l l' := by
  induction refs generalizing l es with
  | nil =>
    have hall : leave (· ∈ ([] : List (Holder × PhysAddr)).map Prod.fst) es = es :=
      leave_of_none fun e he => ⟨h.books.held e.2 (List.mem_map_of_mem he), fun _ _ => rfl⟩
    rw [hall]
    exact ⟨[], l, rfl, h, .refl l⟩
  | cons ref refs ih =>
    obtain ⟨holder, frame⟩ := ref
    obtain ⟨hnew, hn⟩ := List.nodup_cons.mp hn
    obtain ⟨answer, l₁, hrun, hk, hback⟩ :=
      h.releaseMapping_of_lends (hl _ List.mem_cons_self)
    -- the other holders are still there
    have hstill : ∀ ref ∈ refs, Lends (leave (· = holder) es) ref.2 ref.1 := by
      intro ref href
      rw [lends_leave, decide_eq_false_iff_not]
      exact ⟨hl ref (List.mem_cons_of_mem _ href),
        fun hc => hnew (List.mem_map.mpr ⟨ref, href, hc⟩)⟩
    obtain ⟨answers, l₂, hruns, hk', hback'⟩ := ih hk hn hstill
    have hboth : leave (· ∈ refs.map Prod.fst) (leave (· = holder) es) =
        leave (· ∈ ((holder, frame) :: refs).map Prod.fst) es := by
      rw [leave_leave]
      congr 1
      funext g
      simp only [List.map_cons, List.mem_cons, Bool.decide_or]
    refine ⟨answer :: answers, l₂, ?_, hboth ▸ hk', ?_⟩
    · simp only [FrameLedger.releaseEach, hrun, hruns, bind, Except.bind, pure, Except.pure]
    · rw [← List.singleton_append, List.count_append]
      exact hback.trans hback'

/-! ## Letting go of all at once -/

theorem stats_close (hrun : l.close slot = .ok (frame, l')) :
    l'.stats = { l.stats with returned := l.stats.returned + 1 } := by
  obtain ⟨⟨loan, loans⟩, _, hrun⟩ := Checked.bind_eq_ok.mp hrun
  obtain ⟨pool, _, hrun⟩ := Checked.bind_eq_ok.mp hrun
  cases hrun
  rfl

/-- To take a process off loans counts the frames that come back, and nothing else. -/
theorem stats_releaseSlots {slots : List Nat} {freed : List PhysAddr}
    (hrun : releaseSlots pid slots l = .ok (freed, l')) :
    l'.stats = { l.stats with returned := l.stats.returned + freed.length } := by
  induction slots generalizing l freed with
  | nil =>
    cases hrun
    rfl
  | cons slot slots ih =>
    obtain ⟨loans, _, hrun⟩ := Checked.bind_eq_ok.mp hrun
    obtain ⟨node, _, hrun⟩ := Checked.bind_eq_ok.mp hrun
    split at hrun
    · obtain ⟨⟨frame, l₁⟩, hclose, hrun⟩ := Checked.bind_eq_ok.mp hrun
      obtain ⟨⟨frames, l₂⟩, hslots, hrun⟩ := Checked.bind_eq_ok.mp hrun
      cases hrun
      rw [ih hslots, stats_close hclose, List.length_cons, Nat.add_assoc, Nat.add_comm 1]
    · rw [ih hrun]

/-- A process lets go of all its frames, and those come back that only it held. -/
theorem Keeps.gaveBack_releaseAll (h : l.Keeps es) (pid : Pid) :
    ∃ freed l', l.releaseAll pid = .ok (freed, l') ∧
      freed = ((es.map Prod.snd).filter (·.onlyHeldBy pid)).map Loan.frame ∧
      l'.Keeps (dismiss pid es) ∧ GaveBack freed.length l l' := by
  obtain ⟨l', hrun, hk, hp, he, hs⟩ := h.releaseAll pid
  have hstats := hrun
  obtain ⟨entries, _, hstats⟩ := Checked.bind_eq_ok.mp hstats
  refine ⟨_, l', hrun, ?_, hk, hp, he, stats_releaseSlots hstats, hs⟩
  rw [List.filter_map, List.map_map]
  rfl

/-! ## Every order of letting go -/

theorem map_fst_referencesOf (pid : Pid) (loans : List Loan) :
    (referencesOf pid loans).map Prod.fst = (loans.flatMap Loan.holders).filter (·.pid = pid) := by
  simp [referencesOf, List.map_flatMap, List.filter_flatMap, Function.comp_def]

theorem lends_of_mem_referencesOf {ref : Holder × PhysAddr}
    (hm : ref ∈ referencesOf pid (es.map Prod.snd)) : Lends es ref.2 ref.1 := by
  obtain ⟨loan, hloan, hm⟩ := List.mem_flatMap.mp hm
  obtain ⟨e, he, rfl⟩ := List.mem_map.mp hloan
  obtain ⟨g, hg, rfl⟩ := List.mem_map.mp hm
  exact ⟨e, he, rfl, (List.mem_filter.mp hg).1⟩

/-- Who holds by one of the mappings of a process is the process. -/
theorem leave_references {refs : List (Holder × PhysAddr)}
    (hp : refs.Perm (referencesOf pid (es.map Prod.snd))) :
    leave (· ∈ refs.map Prod.fst) es = dismiss pid es := by
  rw [← leave_pid]
  refine leave_congr fun e he g hg => ?_
  have hheld : g ∈ (es.map Prod.snd).flatMap Loan.holders :=
    List.mem_flatMap.mpr ⟨e.2, List.mem_map_of_mem he, hg⟩
  rw [decide_eq_decide, (hp.map Prod.fst).mem_iff, map_fst_referencesOf, List.mem_filter,
    decide_eq_true_eq, and_iff_right hheld]

variable {σ : Type} [UseBits σ]

/-- A process that goes gives back the frames that nobody else holds, in the order of the ring. The
other frames stay in use, with their other holders in the order in which they came. If it lets go of
its mappings one by one instead, each of them once and in any order, then as many releases free a
frame, and the ledger in which this ends agrees with the other one. -/
theorem teardown_in_any_order (hr : Reached σ l) (pid : Pid) :
    ∃ loans freed l₁, l.toList = .ok loans ∧ l.releaseAll pid = .ok (freed, l₁) ∧
      freed = (loans.filter (·.onlyHeldBy pid)).map Loan.frame ∧
      GaveBack freed.length l l₁ ∧
      l₁.toList = .ok ((loans.filter fun loan => !loan.onlyHeldBy pid).map (·.without pid)) ∧
      (∀ loan ∈ loans, ∀ g ∈ loan.holders, g.pid ≠ pid → l₁.pool.inUse loan.frame = true) ∧
      ∀ refs : List (Holder × PhysAddr), refs.Perm (referencesOf pid loans) →
        ∃ answers l₂, releaseEach refs l = .ok (answers, l₂) ∧ Agree l₁ l₂ ∧
          answers.count .freed = freed.length := by
  obtain ⟨es, h⟩ := hr.keeps
  obtain ⟨freed, l₁, hrun, hfreed, hk, hback⟩ := h.gaveBack_releaseAll pid
  refine ⟨es.map Prod.snd, freed, l₁, h.toList, hrun, hfreed, hback, ?_, ?_, ?_⟩
  · rw [hk.toList, List.filter_map, List.map_map, dismiss, List.map_map]
    rfl
  · intro loan hloan g hg hother
    obtain ⟨e, he, rfl⟩ := List.mem_map.mp hloan
    exact hk.inUse_of_lends (lends_dismiss.mpr ⟨⟨e, he, rfl, hg⟩, hother⟩)
  · intro refs hp
    have hn : (refs.map Prod.fst).Nodup := by
      rw [(hp.map Prod.fst).nodup_iff, map_fst_referencesOf]
      exact h.books.holders_nodup.filter _
    obtain ⟨answers, l₂, hruns, hk', hback'⟩ := h.releaseEach hn fun ref href =>
      lends_of_mem_referencesOf (hp.subset href)
    rw [leave_references hp] at hk'
    obtain ⟨hcount, hagree⟩ := hback.agree hback' hk hk'
    exact ⟨answers, l₂, hruns, hagree, hcount.symm⟩

/-- The first process holds the frame under the hand twice, shares another with the second process
and has a third to itself; it lets go of them from the last to the first. -/
theorem teardown_in_any_order_of_three_frames :
    ∃ (l : FrameLedger) (loans : List Loan), Reached UseSets l ∧ l.toList = .ok loans ∧
      ∃ freed l₁ answers l₂, l.releaseAll ⟨1⟩ = .ok (freed, l₁) ∧
        freed = [.ofNat poolBase, .ofNat (poolBase + 0x2000)] ∧
        l₁.toList = .ok [⟨.ofNat (poolBase + 0x1000), [⟨⟨2⟩, .ofNat 0x1000⟩], 2, false⟩] ∧
        releaseEach [(⟨⟨1⟩, .ofNat 0x4000⟩, .ofNat (poolBase + 0x2000)),
          (⟨⟨1⟩, .ofNat 0x3000⟩, .ofNat (poolBase + 0x1000)),
          (⟨⟨1⟩, .ofNat 0x2000⟩, .ofNat poolBase),
          (⟨⟨1⟩, .ofNat 0x1000⟩, .ofNat poolBase)] l = .ok (answers, l₂) ∧
        Agree l₁ l₂ ∧ answers.count .freed = 2 := by
  -- the loans, computed
  have hall : (do
      let l ← performAll
        [.lend ⟨⟨1⟩, .ofNat 0x1000⟩ ({} : UseSets), .lend ⟨⟨2⟩, .ofNat 0x1000⟩ {},
          .lend ⟨⟨1⟩, .ofNat 0x4000⟩ {}, .share (.ofNat poolBase) ⟨⟨1⟩, .ofNat 0x2000⟩,
          .share (.ofNat (poolBase + 0x1000)) ⟨⟨1⟩, .ofNat 0x3000⟩]
        (fresh (PagePool.user 3) .clock)
      l.toList) = .ok
        [⟨.ofNat poolBase, [⟨⟨1⟩, .ofNat 0x1000⟩, ⟨⟨1⟩, .ofNat 0x2000⟩], 1, false⟩,
          ⟨.ofNat (poolBase + 0x1000), [⟨⟨2⟩, .ofNat 0x1000⟩, ⟨⟨1⟩, .ofNat 0x3000⟩], 2, false⟩,
          ⟨.ofNat (poolBase + 0x2000), [⟨⟨1⟩, .ofNat 0x4000⟩], 3, false⟩] := by
    decide +kernel
  obtain ⟨l, hrun, hloans⟩ := Checked.bind_eq_ok.mp hall
  have hr : Reached UseSets l :=
    Reached.performAll
      (.fresh (rfl : PagePool.create (.ofNat poolBase) 3 = _) (by decide) .clock) hrun
  obtain ⟨loans, freed, l₁, hlist, hteardown, hfreed, _, hafter, _, heach⟩ :=
    teardown_in_any_order hr ⟨1⟩
  cases hloans.symm.trans hlist
  obtain ⟨answers, l₂, hruns, hagree, hcount⟩ := heach
    [(⟨⟨1⟩, .ofNat 0x4000⟩, .ofNat (poolBase + 0x2000)),
      (⟨⟨1⟩, .ofNat 0x3000⟩, .ofNat (poolBase + 0x1000)),
      (⟨⟨1⟩, .ofNat 0x2000⟩, .ofNat poolBase),
      (⟨⟨1⟩, .ofNat 0x1000⟩, .ofNat poolBase)] (by decide +kernel)
  exact ⟨l, _, hr, hlist, freed, l₁, answers, l₂, hteardown, hfreed.trans (by decide),
    hafter.trans (by decide), hruns, hagree, hcount.trans (by rw [hfreed]; decide)⟩

end FrameLedger

end TeachingKernel
