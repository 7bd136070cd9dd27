import TeachingKernel.Proofs.Ledger.Idle

/-!
# First lent, first chosen

What was asked of a ledger and what it answered tell which frames are lent, in which order they were
lent, and which of them were chosen as a victim since then. Where nothing is used this is all that
matters: the next victim is the first frame in the order of lending that was not chosen since, and
when all were chosen it is the frame under the hand. The policy makes no difference.
-/

namespace TeachingKernel

def Release.returned : Release → PhysAddr → List PhysAddr
  | freed, frame => [frame]
  | _, _ => []

namespace FrameLedger

variable {σ : Type}

/-! ## The register -/

namespace Operation

/-- The marks by which an operation chose a victim, and the victim. -/
def selection? : (op : Operation σ) → op.Answer → Option (σ × Option PhysAddr)
  | lend _ bits, Except.error (.outOfFrames victim) => some (bits, victim)
  | pickVictim bits, victim => some (bits, victim)
  | _, _ => none

def victim? (op : Operation σ) (answer : op.Answer) : Option PhysAddr :=
  (op.selection? answer).bind Prod.snd

def lent? : (op : Operation σ) → op.Answer → Option PhysAddr
  | lend .., Except.ok frame => some frame
  | _, _ => none

def returned : (op : Operation σ) → op.Answer → List PhysAddr
  | release _ frame, answer => Release.returned answer frame
  | releaseMapping _ frame, answer => Release.returned answer frame
  | releaseAll _, frames => frames
  | _, _ => []

end Operation

/-- The lent frames in the order in which they were lent, and which of them were chosen as a victim
since then. -/
abbrev Register := List (PhysAddr × Bool)

namespace Register

/-- The frames that were not chosen since they were lent. -/
def waiting (r : Register) : List PhysAddr := (r.filter fun c => !c.2).map Prod.fst

/-- The register after an operation: frames came back, one was chosen, one was lent. -/
def after (r : Register) (op : Operation σ) (answer : op.Answer) : Register :=
  ((r.filter fun c => c.1 ∉ op.returned answer).map fun c =>
      (c.1, c.2 || op.victim? answer = some c.1)) ++
    (op.lent? answer).toList.map fun frame => (frame, false)

end Register

abbrev Step (σ : Type) := (op : Operation σ) × op.Answer

def register (steps : List (Step σ)) : Register :=
  steps.foldl (fun r step => r.after step.1 step.2) []

variable [UseBits σ]

inductive IdleRun : FrameLedger → List (Step σ) → FrameLedger → Prop
  | nil (l : FrameLedger) : IdleRun l [] l
  | cons {l l₁ l' : FrameLedger} {op : Operation σ} {answer : op.Answer} {steps : List (Step σ)}
      (hcall : op.call l = .ok (answer, l₁))
      (hidle : ∀ bits victim, op.selection? answer = some (bits, victim) → l.Idle bits)
      (hr : IdleRun l₁ steps l') : IdleRun l (⟨op, answer⟩ :: steps) l'

/-! ## The loans and the register -/

section Registered

variable {es es' pre post : List (Nat × Loan)} {slot : Nat} {loan : Loan} {r : Register}

/-- What the choice of a victim asks of the loans where nothing is used. -/
def standings (es : List (Nat × Loan)) : List (PhysAddr × Bool × Nat) :=
  es.map fun e => (e.2.frame, e.2.chosen, e.2.lastUsed)

theorem standings_append (xs ys : List (Nat × Loan)) :
    standings (xs ++ ys) = standings xs ++ standings ys := List.map_append

theorem standings_cons (e : Nat × Loan) (es : List (Nat × Loan)) :
    standings (e :: es) = (e.2.frame, e.2.chosen, e.2.lastUsed) :: standings es := rfl

theorem choices_eq_map_standings (es : List (Nat × Loan)) :
    choices es = (standings es).map fun s => (s.1, s.2.1) := by
  simp [choices, standings]

theorem aged_iff_standings : Aged es ↔ (standings es).Pairwise fun s s' =>
    s.2.1 = false → s'.2.1 = false → s.2.2 ≤ s'.2.2 := by
  rw [standings, List.pairwise_map]
  rfl

theorem filter_choices_of_chosen (h : ∀ e ∈ es, e.2.chosen = true) :
    ((choices es).filter fun c => !c.2) = [] := by
  rw [List.filter_eq_nil_iff]
  intro c hc
  obtain ⟨e, he, rfl⟩ := List.mem_map.mp hc
  simp [h e he]

theorem Aged.append_chosen {xs ys : List (Nat × Loan)} (h : Aged xs)
    (hys : ∀ e ∈ ys, e.2.chosen = true) : Aged (xs ++ ys) := by
  have hlate : ∀ {e}, e ∈ ys → e.2.chosen ≠ false := fun he => by rw [hys _ he]; decide
  exact List.pairwise_append.mpr ⟨h,
    List.pairwise_of_forall_mem_list fun _ _ _ he' _ hc => absurd hc (hlate he'),
    fun _ _ _ he' _ hc => absurd hc (hlate he')⟩

/-- All loans are in the register, and those that were not chosen stand in the ring as they do in
the register, the earlier one used earlier. -/
structure Registered (es : List (Nat × Loan)) (r : Register) : Prop where
  perm : (choices es).Perm r
  order : ((choices es).filter fun c => !c.2) = r.filter fun c => !c.2
  aged : Aged es

theorem registered_nil : Registered [] [] := ⟨.refl [], rfl, .nil⟩

/-- Frames come back and a frame is lent. -/
theorem Registered.renew {gone : List PhysAddr} {lent : Option PhysAddr} {epoch : Nat}
    (h : Registered es r)
    (hs : standings es' = ((standings es).filter fun s => s.1 ∉ gone) ++
      lent.toList.map fun frame => (frame, false, epoch))
    (hused : ∀ e ∈ es, e.2.lastUsed ≤ epoch) :
    Registered es'
      ((r.filter fun c => c.1 ∉ gone) ++ lent.toList.map fun frame => (frame, false)) := by
  have hchoices : choices es' = ((choices es).filter fun c => c.1 ∉ gone) ++
      lent.toList.map fun frame => (frame, false) := by
    rw [choices_eq_map_standings es', hs, choices_eq_map_standings es]
    simp [List.filter_map, Function.comp_def]
  refine ⟨?_, ?_, aged_iff_standings.mpr ?_⟩
  · rw [hchoices]
    exact (h.perm.filter _).append_right _
  · rw [hchoices, List.filter_append, List.filter_append, List.filter_comm, h.order,
      List.filter_comm]
  · rw [hs]
    refine List.pairwise_append.mpr
      ⟨(aged_iff_standings.mp h.aged).sublist List.filter_sublist, ?_, ?_⟩
    · cases lent <;> simp
    · intro s hm s' hm' _ _
      obtain ⟨frame, -, rfl⟩ := List.mem_map.mp hm'
      obtain ⟨e, he, rfl⟩ := List.mem_map.mp (List.mem_of_mem_filter hm)
      exact hused e he

/-- The register after a frame was chosen. -/
def Register.choose (r : Register) (victim : PhysAddr) : Register :=
  r.map fun c => (c.1, c.2 || some victim = some c.1)

theorem Register.choose_of_notMem {victim : PhysAddr} (h : victim ∉ r.map Prod.fst) :
    r.choose victim = r := by
  refine (List.map_congr_left fun c hc => ?_).trans (List.map_id r)
  have hne : victim ≠ c.1 := fun he => h (he ▸ List.mem_map_of_mem hc)
  simp [hne]

theorem Register.filter_choose (r : Register) (victim : PhysAddr) :
    ((r.choose victim).filter fun c => !c.2) =
      (r.filter fun c => !c.2).filter fun c => c.1 ≠ victim := by
  induction r with
  | nil => rfl
  | cons c r ih =>
    obtain ⟨frame, chosen⟩ := c
    have hcons : Register.choose ((frame, chosen) :: r) victim =
        (frame, chosen || some victim = some frame) :: Register.choose r victim := rfl
    rw [hcons]
    cases chosen with
    | true => simpa using ih
    | false =>
      by_cases hf : victim = frame
      · subst hf
        simpa using ih
      · simpa [hf, Ne.symm hf] using ih

/-- A loan is chosen, before which all others were chosen already. -/
theorem Registered.choose (h : Registered (pre ++ (slot, loan) :: post) r)
    (hnodup : ((choices (pre ++ (slot, loan) :: post)).map Prod.fst).Nodup)
    (hpre : ∀ e ∈ pre, e.2.chosen = true) :
    Registered (post ++ pre ++ [(slot, { loan with chosen := true })]) (r.choose loan.frame) := by
  rw [choices_append, choices_cons, List.map_append, List.map_cons, List.nodup_middle,
    List.nodup_cons, List.mem_append, not_or] at hnodup
  have hchoices : Register.choose (choices (pre ++ (slot, loan) :: post)) loan.frame =
      choices pre ++ (loan.frame, true) :: choices post := by
    have hself : Register.choose [(loan.frame, loan.chosen)] loan.frame = [(loan.frame, true)] := by
      simp [Register.choose]
    have happend : ∀ r r' : Register, Register.choose (r ++ r') loan.frame =
        r.choose loan.frame ++ r'.choose loan.frame := fun _ _ => List.map_append
    rw [choices_append, choices_cons, happend, ← List.singleton_append, happend, hself,
      Register.choose_of_notMem hnodup.1.1, Register.choose_of_notMem hnodup.1.2]
    rfl
  refine ⟨?_, ?_, ?_⟩
  · refine List.Perm.trans ?_ (h.perm.map _)
    rw [show (choices (pre ++ (slot, loan) :: post)).map _ = _ from hchoices, choices_append,
      choices_append, choices_cons]
    exact (List.perm_append_comm.append_right _).trans
      ((List.append_assoc _ _ _).symm ▸ (List.perm_append_singleton _ _).append_left _)
  · rw [Register.filter_choose, ← h.order, ← Register.filter_choose, hchoices]
    simp only [choices_append, choices_cons, List.filter_append, filter_choices_of_chosen hpre]
    simp [choices]
  · have hpost : Aged post :=
      h.aged.sublist ((List.sublist_cons_self _ _).trans (List.sublist_append_right _ _))
    rw [List.append_assoc]
    refine hpost.append_chosen fun e he => ?_
    rcases List.mem_append.mp he with he | he
    · exact hpre e he
    · rw [List.mem_singleton.mp he]

/-- The first of those that were not chosen is chosen next, if there is one. -/
theorem Registered.next (h : Registered (pre ++ (slot, loan) :: post) r)
    (hpre : ∀ e ∈ pre, e.2.chosen = true)
    (hall : loan.chosen = true → pre = [] ∧ ∀ e ∈ post, e.2.chosen = true) :
    some loan.frame = r.waiting.head?.or
      ((pre ++ (slot, loan) :: post).head?.map fun e => e.2.frame) := by
  rw [Register.waiting, ← h.order, choices_append, choices_cons, List.filter_append,
    filter_choices_of_chosen hpre, List.nil_append]
  cases hchosen : loan.chosen with
  | true =>
    obtain ⟨rfl, hpost⟩ := hall hchosen
    rw [List.filter_cons_of_neg (by simp), filter_choices_of_chosen hpost]
    rfl
  | false =>
    rw [List.filter_cons_of_pos (by simp)]
    rfl

end Registered

/-! ## One operation -/

variable {l l' : FrameLedger} {es es' : List (Nat × Loan)} {r : Register} {bits : σ}

theorem Keeps.nodup_choices (h : l.Keeps es) : ((choices es).map Prod.fst).Nodup := by
  rw [map_fst_choices]
  exact h.books.frames_nodup

/-- To end a loan is to strike out its frame. -/
theorem Keeps.standings_strike {xs ys : List (Nat × Loan)} {slot : Nat} {loan : Loan}
    (h : l.Keeps (xs ++ (slot, loan) :: ys)) :
    standings (xs ++ ys) =
      (standings (xs ++ (slot, loan) :: ys)).filter fun s => s.1 ∉ [loan.frame] := by
  have hnodup := h.nodup_choices
  rw [choices_append, choices_cons, List.map_append, List.map_cons, List.nodup_middle,
    List.nodup_cons, List.mem_append, not_or] at hnodup
  have hkeep : ∀ {es : List (Nat × Loan)}, loan.frame ∉ (choices es).map Prod.fst →
      ((standings es).filter fun s => s.1 ∉ [loan.frame]) = standings es := by
    intro es hn
    refine List.filter_eq_self.mpr fun s hs => ?_
    obtain ⟨e, he, rfl⟩ := List.mem_map.mp hs
    have hne : e.2.frame ≠ loan.frame := fun hf =>
      hn (List.mem_map.mpr ⟨_, List.mem_map_of_mem he, hf⟩)
    simpa using hne
  rw [standings_append, standings_append, standings_cons, List.filter_append,
    List.filter_cons_of_neg (by simp), hkeep hnodup.1.1, hkeep hnodup.1.2]

/-- To let go of a frame strikes it out if it goes to the pool, and else changes holders only. -/
theorem Keeps.standings_releaseWhere (h : l.Keeps es) (frame : PhysAddr) (test : Holder → Bool) :
    ∃ answer l' es', l.releaseWhere frame test = .ok (answer, l') ∧ l'.Keeps es' ∧
      l'.epoch = l.epoch ∧
      standings es' = (standings es).filter fun s => s.1 ∉ answer.returned frame := by
  rcases h.releaseWhere frame test with ⟨hrun, _⟩ | ⟨xs, slot, loan, ys, rfl, rfl, hrun⟩
  · exact ⟨_, l, es, hrun, h, rfl, by simp [Release.returned]⟩
  · rw [hrun]
    rcases h.letGo test with ⟨hgo, _⟩ | ⟨_, ⟨loans', _, hgo, hk⟩ | ⟨i, loans', _, _, hgo, hk⟩⟩
    · exact ⟨_, l, _, hgo, h, rfl, by simp [Release.returned]⟩
    · exact ⟨_, _, _, hgo, hk, rfl, by simp [Release.returned, standings]⟩
    · exact ⟨_, _, _, hgo, hk, rfl, h.standings_strike⟩

/-- To let go of all frames strikes out those that no other process holds. -/
theorem Keeps.standings_dismiss (h : l.Keeps es) (pid : Pid) :
    standings (dismiss pid es) = (standings es).filter fun s =>
      s.1 ∉ (es.filter fun e => e.2.onlyHeldBy pid).map fun e => e.2.frame := by
  have hinj : ∀ e ∈ es, ∀ e' ∈ es, e'.2.frame = e.2.frame → e' = e := by
    have hnodup := h.nodup_choices
    rw [choices, List.map_map] at hnodup
    exact fun e he e' he' hf => List.inj_on_of_nodup_map hnodup he' he hf
  have hdismiss : standings (dismiss pid es) =
      standings (es.filter fun e => !e.2.onlyHeldBy pid) := by
    simp only [standings, dismiss, List.map_map]
    rfl
  rw [hdismiss, standings, standings, List.filter_map]
  congr 1
  refine List.filter_congr fun e he => ?_
  rw [Bool.eq_iff_iff]
  simp only [Bool.not_eq_true', Function.comp_apply, decide_eq_true_eq, List.mem_map,
    List.mem_filter, not_exists, not_and]
  constructor
  · rintro hn e' ⟨he', hother⟩ hf
    rw [hinj e he e' he' hf, hn] at hother
    contradiction
  · intro hn
    by_contra hc
    exact hn e ⟨he, by simpa using hc⟩ rfl

/-- The loans after an operation that chose no victim, by its answer: some are struck out, or one is
new. -/
def Renews (op : Operation σ) (answer : op.Answer) (es : List (Nat × Loan)) (epoch : Nat)
    (es' : List (Nat × Loan)) : Prop :=
  standings es' = ((standings es).filter fun s => s.1 ∉ op.returned answer) ++
    (op.lent? answer).toList.map fun frame => (frame, false, epoch)

section Renews

variable {op : Operation σ} {answer : op.Answer} {epoch : Nat}

omit [UseBits σ]

theorem renews_of_eq (hs : standings es' = standings es) (hr : op.returned answer = [])
    (hl : op.lent? answer = none) : Renews op answer es epoch es' := by
  rw [Renews, hs, hr, hl]
  simp

theorem renews_of_filter {gone : List PhysAddr}
    (hs : standings es' = (standings es).filter fun s => s.1 ∉ gone)
    (hr : op.returned answer = gone) (hl : op.lent? answer = none) :
    Renews op answer es epoch es' := by
  rw [Renews, hs, hr, hl]
  simp

theorem renews_of_append {frame : PhysAddr}
    (hs : standings es' = standings es ++ [(frame, false, epoch)]) (hr : op.returned answer = [])
    (hl : op.lent? answer = some frame) : Renews op answer es epoch es' := by
  rw [Renews, hs, hr, hl]
  simp

theorem Register.after_of_quiet (r : Register)
    (hs : op.selection? answer = none) :
    r.after op answer = (r.filter fun c => c.1 ∉ op.returned answer) ++
      (op.lent? answer).toList.map fun frame => (frame, false) := by
  simp [Register.after, Operation.victim?, hs]

theorem Register.after_of_selection (r : Register)
    {victim : Option PhysAddr} (hs : op.selection? answer = some (bits, victim))
    (hr : op.returned answer = []) (hl : op.lent? answer = none) :
    r.after op answer = victim.elim r r.choose := by
  cases victim <;> simp [Register.after, Register.choose, Operation.victim?, hs, hr, hl]

end Renews

/-- What an operation does that chooses no victim. -/
theorem Keeps.call_standings (h : l.Keeps es) (op : Operation σ) :
    ∃ answer l' es', op.call l = .ok (answer, l') ∧ l'.Keeps es' ∧ l.epoch ≤ l'.epoch ∧
      (op.selection? answer = none → Renews op answer es l'.epoch es') := by
  cases op with
  | lend holder bits =>
    rcases h.lend holder bits with ⟨hrun, _⟩ | ⟨i, slot, loans', hi, _, hrun, hk⟩ |
      ⟨victim, l', bits', es', _, _, hpick, hrun⟩
    · exact ⟨_, l, es, Operation.call_lend hrun, h, Nat.le_refl _,
        fun _ => renews_of_eq rfl rfl rfl⟩
    · exact ⟨_, _, _, Operation.call_lend hrun, hk, Nat.le_succ l.epoch,
        fun _ => renews_of_append (standings_append _ _) rfl rfl⟩
    · exact ⟨_, l', es', Operation.call_lend hrun, hpick.keeps, hpick.epoch_eq.ge,
        fun hquiet => absurd hquiet (Option.some_ne_none _)⟩
  | share frame holder =>
    rcases h.share frame holder with ⟨hrun, _⟩ | ⟨hrun, _⟩ |
      ⟨xs, slot, loan, ys, loans', rfl, _, _, hrun, hk⟩
    · exact ⟨_, l, es, Operation.call_share_error hrun, h, Nat.le_refl _,
        fun _ => renews_of_eq rfl rfl rfl⟩
    · exact ⟨_, l, es, Operation.call_share_error hrun, h, Nat.le_refl _,
        fun _ => renews_of_eq rfl rfl rfl⟩
    · refine ⟨_, _, _, Operation.call_share hrun, hk, Nat.le_refl _,
        fun _ => renews_of_eq ?_ rfl rfl⟩
      rw [standings_append, standings_append, standings_cons, standings_cons]
  | release pid frame =>
    obtain ⟨answer, l', es', hrun, hk, he, hs⟩ := h.standings_releaseWhere frame (·.pid = pid)
    exact ⟨answer, l', es', hrun, hk, he.ge, fun _ => renews_of_filter hs rfl rfl⟩
  | releaseMapping holder frame =>
    obtain ⟨answer, l', es', hrun, hk, he, hs⟩ := h.standings_releaseWhere frame (· = holder)
    exact ⟨answer, l', es', hrun, hk, he.ge, fun _ => renews_of_filter hs rfl rfl⟩
  | releaseAll pid =>
    obtain ⟨l', hrun, hk, _, he, _⟩ := h.releaseAll pid
    exact ⟨_, l', _, hrun, hk, he.ge,
      fun _ => renews_of_filter (h.standings_dismiss pid) rfl rfl⟩
  | pickVictim bits =>
    obtain ⟨victim, l', bits', es', hpick⟩ := h.pickVictim bits
    exact ⟨victim, l', es', Operation.call_pickVictim hpick.run, hpick.keeps, hpick.epoch_eq.ge,
      fun hquiet => absurd hquiet (Option.some_ne_none _)⟩
  | advance ticks =>
    exact ⟨(), _, es, rfl, h.advance ticks, Nat.le_add_right _ _,
      fun _ => renews_of_eq rfl rfl rfl⟩

/-- An operation that chose a victim did nothing else. -/
theorem Operation.of_selection? {op : Operation σ} {answer : op.Answer} {victim : Option PhysAddr}
    (hcall : op.call l = .ok (answer, l')) (hs : op.selection? answer = some (bits, victim)) :
    (∃ bits', l.pickVictim bits = .ok (victim, l', bits')) ∧ op.returned answer = [] ∧
      op.lent? answer = none := by
  cases op with
  | lend holder bits₁ =>
    obtain ⟨⟨answer₁, l₁, bits'⟩, hlend, hcall⟩ := Checked.bind_eq_ok.mp hcall
    cases hcall
    cases answer with
    | ok frame => cases hs
    | error error =>
      cases error with
      | outOfFrames chosen =>
        cases hs
        refine ⟨⟨bits', ?_⟩, rfl, rfl⟩
        obtain ⟨held, -, hlend⟩ := Checked.bind_eq_ok.mp hlend
        split at hlend
        · cases hlend
        · split at hlend
          · obtain ⟨entered, -, hlend⟩ := Checked.bind_eq_ok.mp hlend
            cases hlend
          · obtain ⟨⟨victim, l₂, bits₂⟩, hpick, hlend⟩ := Checked.bind_eq_ok.mp hlend
            cases hlend
            exact hpick
      | _ => cases hs
  | pickVictim bits₁ =>
    obtain ⟨⟨chosen, l₁, bits'⟩, hpick, hcall⟩ := Checked.bind_eq_ok.mp hcall
    cases hcall
    cases hs
    exact ⟨⟨bits', hpick⟩, rfl, rfl⟩
  | _ => cases hs

/-- The policy makes no difference to an operation if it makes none to the choice of a victim. -/
theorem Operation.call_withPolicy {op : Operation σ} {answer : op.Answer} (policy : Policy)
    (hcall : op.call l = .ok (answer, l'))
    (hpick : ∀ bits victim bits', op.selection? answer = some (bits, victim) →
      l.pickVictim bits = .ok (victim, l', bits') →
      (l.withPolicy policy).pickVictim bits = .ok (victim, l'.withPolicy policy, bits')) :
    op.call (l.withPolicy policy) = .ok (answer, l'.withPolicy policy) := by
  cases op with
  | lend holder bits =>
    obtain ⟨⟨answer₁, l₁, bits'⟩, hlend, hcall⟩ := Checked.bind_eq_ok.mp hcall
    cases hcall
    refine Checked.bind_eq_ok.mpr ⟨(_, l'.withPolicy policy, bits'), ?_, rfl⟩
    obtain ⟨held, hheld, hlend⟩ := Checked.bind_eq_ok.mp hlend
    refine Checked.bind_eq_ok.mpr ⟨held, hheld, ?_⟩
    split at hlend
    · rw [if_pos ‹_›]
      cases hlend
      rfl
    · rw [if_neg ‹_›]
      split at hlend
      · rename_i frame pool hacquire
        rw [pool_withPolicy, hacquire]
        obtain ⟨entered, henter, hlend⟩ := Checked.bind_eq_ok.mp hlend
        cases hlend
        exact Checked.bind_eq_ok.mpr ⟨_, enter_withPolicy policy henter, rfl⟩
      · rename_i hacquire
        rw [pool_withPolicy, hacquire]
        obtain ⟨⟨victim, l₂, bits₂⟩, hchosen, hlend⟩ := Checked.bind_eq_ok.mp hlend
        cases hlend
        exact Checked.bind_eq_ok.mpr ⟨_, hpick _ _ _ rfl hchosen, rfl⟩
  | share frame holder =>
    obtain ⟨result, hshare, hcall⟩ := Checked.bind_eq_ok.mp hcall
    refine Checked.bind_eq_ok.mpr ⟨_, share_withPolicy policy hshare, ?_⟩
    cases result <;> cases hcall <;> rfl
  | release pid frame => exact releaseWhere_withPolicy policy hcall
  | releaseMapping holder frame => exact releaseWhere_withPolicy policy hcall
  | releaseAll pid => exact releaseAll_withPolicy policy hcall
  | pickVictim bits =>
    obtain ⟨⟨chosen, l₁, bits'⟩, hchosen, hcall⟩ := Checked.bind_eq_ok.mp hcall
    cases hcall
    exact Operation.call_pickVictim (hpick _ _ _ rfl hchosen)
  | advance ticks =>
    cases hcall
    rfl

/-- Where nothing is used, the first frame in the order of lending that was not chosen since is
chosen, whatever the policy. -/
theorem Keeps.choose (h : l.Keeps es) (hr : Registered es r) (hidle : l.Idle bits) :
    ∃ (victim : Option PhysAddr) (l' : FrameLedger) (es' : List (Nat × Loan)),
      (∀ policy, (l.withPolicy policy).pickVictim bits =
        .ok (victim, l'.withPolicy policy, bits)) ∧
      l'.Keeps es' ∧ victim = r.waiting.head?.or (es.head?.map fun e => e.2.frame) ∧
      Registered es' (victim.elim r r.choose) := by
  cases es with
  | nil =>
    obtain rfl := List.nil_perm.mp hr.perm
    refine ⟨none, l, [], fun policy => ?_, h, rfl, hr⟩
    simp only [FrameLedger.pickVictim, loans_withPolicy, h.ring.hand_eq, List.head?_nil,
      Option.map_none, pure, Except.pure]
  | cons e es =>
    obtain ⟨pre, slot, loan, post, l', hsplit, hpre, hall, hrun, hk, -⟩ :=
      h.pickVictim_of_idle hidle hr.aged
    have hnodup := h.nodup_choices
    rw [hsplit] at hr hnodup ⊢
    exact ⟨_, l', _, hrun, hk, hr.next hpre hall, hr.choose hnodup hpre⟩

/-- One operation. -/
theorem Keeps.step (h : l.Keeps es) (hr : Registered es r) {op : Operation σ} {answer : op.Answer}
    (hcall : op.call l = .ok (answer, l'))
    (hidle : ∀ bits victim, op.selection? answer = some (bits, victim) → l.Idle bits) :
    (∃ es', l'.Keeps es' ∧ Registered es' (r.after op answer)) ∧
      (∀ policy, op.call (l.withPolicy policy) = .ok (answer, l'.withPolicy policy)) ∧
      ∀ bits victim, op.selection? answer = some (bits, victim) →
        victim = r.waiting.head?.or (es.head?.map fun e => e.2.frame) := by
  cases hs : op.selection? answer with
  | none =>
    obtain ⟨_, _, es', hcall', hk, hepoch, hrenews⟩ := h.call_standings op
    cases hcall'.symm.trans hcall
    refine ⟨⟨es', hk, ?_⟩, fun policy => ?_, fun _ _ hc => by cases hc⟩
    · rw [r.after_of_quiet hs]
      exact hr.renew (hrenews hs) fun e he =>
        (h.books.used e.2 (List.mem_map_of_mem he)).trans hepoch
    · exact Operation.call_withPolicy policy hcall fun _ _ _ hc => by simp [hs] at hc
  | some selection =>
    obtain ⟨bits, victim⟩ := selection
    obtain ⟨⟨bits', hpick⟩, hreturned, hlent⟩ := Operation.of_selection? hcall hs
    obtain ⟨_, l₁, es', hrun, hk, hvictim, hr'⟩ := h.choose hr (hidle bits victim hs)
    cases (hrun l.policy).symm.trans hpick
    refine ⟨⟨es', ⟨hk.ring, { hk.books with }⟩, ?_⟩, fun policy => ?_, fun _ _ hc => ?_⟩
    · rwa [r.after_of_selection hs hreturned hlent]
    · refine Operation.call_withPolicy policy hcall fun bits₁ victim₁ bits₂ hc hpick₁ => ?_
      cases hs.symm.trans hc
      cases (hrun l.policy).symm.trans hpick₁
      exact hrun policy
    · cases hc
      exact hvictim

/-- A run in which nothing is used when a victim is chosen keeps the loans in the register, and is
the same run under another policy. -/
theorem Keeps.idleRun (h : l.Keeps es) (hr : Registered es r) {steps : List (Step σ)}
    (hrun : IdleRun l steps l') :
    (∃ es', l'.Keeps es' ∧
      Registered es' (steps.foldl (fun r step => r.after step.1 step.2) r)) ∧
      ∀ policy, IdleRun (l.withPolicy policy) steps (l'.withPolicy policy) := by
  induction hrun generalizing es r with
  | nil l => exact ⟨⟨es, h, hr⟩, fun policy => .nil _⟩
  | cons hcall hidle _ ih =>
    obtain ⟨⟨es₁, hk, hr₁⟩, hpolicy, -⟩ := h.step hr hcall hidle
    obtain ⟨hrest, hrest'⟩ := ih hk hr₁
    exact ⟨hrest, fun policy => .cons (hpolicy policy) hidle (hrest' policy)⟩

/-- The newest frame does not wait first if an older one waits. -/
theorem Register.head?_waiting_ne {older : Register} {newest : PhysAddr × Bool}
    (hnodup : ((older ++ [newest]).map Prod.fst).Nodup) (hold : ∃ c ∈ older, c.2 = false)
    (hand : Option PhysAddr) :
    (Register.waiting (older ++ [newest])).head?.or hand ≠ some newest.1 := by
  obtain ⟨c, hc, hwaits⟩ := hold
  have hmem : c.1 ∈ Register.waiting older :=
    List.mem_map_of_mem (List.mem_filter.mpr ⟨hc, by simp [hwaits]⟩)
  obtain ⟨first, rest, hfirst⟩ := List.exists_cons_of_ne_nil (List.ne_nil_of_mem hmem)
  have hsplit : Register.waiting (older ++ [newest]) =
      Register.waiting older ++ Register.waiting [newest] := by
    rw [Register.waiting, List.filter_append, List.map_append]
    rfl
  rw [hsplit, hfirst, List.cons_append, List.head?_cons, Option.some_or, ne_eq, Option.some_inj]
  rintro rfl
  have hin : newest.1 ∈ Register.waiting older := hfirst ▸ List.mem_cons_self
  obtain ⟨c', hc', he⟩ := List.mem_map.mp hin
  rw [List.map_append, List.nodup_append] at hnodup
  exact hnodup.2.2 _ (List.mem_map_of_mem (List.mem_of_mem_filter hc')) _ (by simp) he

/-- Without use every policy is first in, first out. After every run in which no holder is marked
whenever a victim is chosen, the next victim is the first frame in the order of lending that was not
chosen since it was lent, and if there is none it is the frame under the hand. So it is not the
frame that was lent last while an older one was not chosen, and under another policy the same run
has the same answers. -/
theorem idle_victims_in_order_of_lending {base : PhysAddr} {total : Nat} {pool : PagePool}
    (hp : PagePool.create base total = .ok pool)
    (hfits : base.toNat + total * pageSize ≤ addressBound) (policy : Policy)
    {steps : List (Step σ)} {l : FrameLedger} (hrun : IdleRun (fresh pool policy) steps l) :
    (∀ frame, l.contains frame = .ok true ↔ frame ∈ (register steps).map Prod.fst) ∧
      ((register steps).map Prod.fst).Nodup ∧
      (∃ hand, l.handFrame? = .ok hand ∧ (hand = none ↔ l.size = 0) ∧
        ∀ op : Operation σ, ∃ answer l', op.call l = .ok (answer, l') ∧
          ∀ bits victim, op.selection? answer = some (bits, victim) → l.Idle bits →
            victim = (register steps).waiting.head?.or hand ∧
            ∀ older newest, register steps = older ++ [newest] → (∃ c ∈ older, c.2 = false) →
              victim ≠ some newest.1) ∧
      ∀ other, IdleRun (fresh pool other) steps (l.withPolicy other) := by
  obtain ⟨hk, _⟩ := keeps_create hp hfits policy
  obtain ⟨⟨es, hk', hr⟩, hpolicy⟩ := hk.idleRun registered_nil hrun
  rw [← register] at hr
  have hframes : ((choices es).map Prod.fst).Perm ((register steps).map Prod.fst) :=
    hr.perm.map Prod.fst
  have hnodup := hframes.nodup_iff.mp hk'.nodup_choices
  have hhand : l.handFrame? = .ok (es.head?.map fun e => e.2.frame) := by
    rw [hk'.handFrame?]
    cases es <;> rfl
  refine ⟨fun frame => ?_, hnodup, ⟨_, hhand, ?_, fun op => ?_⟩, hpolicy⟩
  · rw [hk'.contains_iff, ← hframes.mem_iff]
    simp [choices]
  · rw [hk'.size_eq]
    cases es <;> simp
  · obtain ⟨answer, l', _, hcall, _⟩ := hk'.exists_call op
    refine ⟨answer, l', hcall, fun bits victim hs hidle => ?_⟩
    obtain ⟨-, -, hvictim⟩ := hk'.step hr hcall fun bits' victim' hs' => by
      cases hs.symm.trans hs'
      exact hidle
    rw [hvictim bits victim hs]
    refine ⟨rfl, fun older newest hlast hold => ?_⟩
    rw [hlast] at hnodup ⊢
    exact Register.head?_waiting_ne hnodup hold _

theorem idle_of_no_marks (l : FrameLedger) : l.Idle ({} : UseSets) :=
  fun _ _ _ _ _ _ => ⟨rfl, rfl⟩

set_option synthInstance.maxSize 512 in
/-- Two frames are lent and both are chosen, so that the hand is at the first one again. Then a
third frame is lent. It is the next victim, under either policy. -/
theorem idle_victims_in_order_of_three_frames :
    PagePool.create (.ofNat poolBase) 3 = .ok (PagePool.user 3) ∧
      (Address.ofNat poolBase : PhysAddr).toNat + 3 * pageSize ≤ addressBound ∧
      ∃ (steps : List (Step UseSets)) (l l' : FrameLedger),
        IdleRun (fresh (PagePool.user 3) (.workingSet 1)) steps l ∧
        IdleRun (fresh (PagePool.user 3) .clock) steps (l.withPolicy .clock) ∧
        register steps = [(.ofNat poolBase, true), (.ofNat (poolBase + pageSize), true),
          (.ofNat (poolBase + 2 * pageSize), false)] ∧
        l.handFrame? = .ok (some (.ofNat poolBase)) ∧
        (Operation.pickVictim ({} : UseSets)).call l =
          .ok (some (.ofNat (poolBase + 2 * pageSize)), l') := by
  have hp : PagePool.create (.ofNat poolBase) 3 = .ok (PagePool.user 3) := rfl
  have hfits : (Address.ofNat poolBase : PhysAddr).toNat + 3 * pageSize ≤ addressBound := by decide
  -- the answers of the whole run, computed at once
  have hall : (do
      let (lent, l, _) ← (fresh (PagePool.user 3) (.workingSet 1)).lend ⟨⟨1⟩, .ofNat 0x1000⟩
        ({} : UseSets)
      let (lent', l, _) ← l.lend ⟨⟨2⟩, .ofNat 0x1000⟩ ({} : UseSets)
      let (first, l, _) ← l.pickVictim ({} : UseSets)
      let (second, l, _) ← l.pickVictim ({} : UseSets)
      let (lent'', l, _) ← l.lend ⟨⟨3⟩, .ofNat 0x1000⟩ ({} : UseSets)
      let hand ← l.handFrame?
      return ((lent, lent', lent''), (first, second), hand)) =
      .ok ((.ok (.ofNat poolBase), .ok (.ofNat (poolBase + pageSize)),
          .ok (.ofNat (poolBase + 2 * pageSize))),
        (some (.ofNat poolBase), some (.ofNat (poolBase + pageSize))), some (.ofNat poolBase)) := by
    decide +kernel
  obtain ⟨⟨lent, l₁, _⟩, hlend, hall⟩ := Checked.bind_eq_ok.mp hall
  obtain ⟨⟨lent', l₂, _⟩, hlend', hall⟩ := Checked.bind_eq_ok.mp hall
  obtain ⟨⟨first, l₃, _⟩, hpick, hall⟩ := Checked.bind_eq_ok.mp hall
  obtain ⟨⟨second, l₄, _⟩, hpick', hall⟩ := Checked.bind_eq_ok.mp hall
  obtain ⟨⟨lent'', l₅, _⟩, hlend'', hall⟩ := Checked.bind_eq_ok.mp hall
  obtain ⟨hand, hhand, hall⟩ := Checked.bind_eq_ok.mp hall
  simp only [pure, Except.pure, Except.ok.injEq, Prod.mk.injEq] at hall
  obtain ⟨⟨rfl, rfl, rfl⟩, ⟨rfl, rfl⟩, rfl⟩ := hall
  have hlends : ∀ {h : Holder} {frame : PhysAddr} {l l' : FrameLedger} {bits : UseSets},
      l.lend h {} = .ok (.ok frame, l', bits) → ∀ {steps last}, IdleRun l' steps last →
      IdleRun l (⟨.lend h ({} : UseSets), Except.ok frame⟩ :: steps) last :=
    fun hlend _ _ hr => .cons (Operation.call_lend hlend) (fun _ _ hs => by cases hs) hr
  have hpicks : ∀ {victim : Option PhysAddr} {l l' : FrameLedger} {bits : UseSets},
      l.pickVictim {} = .ok (victim, l', bits) → ∀ {steps last}, IdleRun l' steps last →
      IdleRun l (⟨.pickVictim ({} : UseSets), victim⟩ :: steps) last :=
    fun hpick _ _ hr => .cons (Operation.call_pickVictim hpick)
      (fun _ _ hs => by cases hs; exact idle_of_no_marks _) hr
  have hrun := hlends hlend (hlends hlend' (hpicks hpick (hpicks hpick'
    (hlends hlend'' (.nil l₅)))))
  obtain ⟨-, -, ⟨hand, hhand', -, hnext⟩, hpolicy⟩ :=
    idle_victims_in_order_of_lending hp hfits (.workingSet 1) hrun
  cases hhand'.symm.trans hhand
  obtain ⟨answer, l', hcall, hvictim⟩ := hnext (.pickVictim {})
  refine ⟨hp, hfits, _, l₅, l', hrun, hpolicy .clock, by decide +kernel, hhand, ?_⟩
  obtain ⟨rfl, -⟩ := hvictim {} answer rfl (idle_of_no_marks l₅)
  exact hcall

end FrameLedger

end TeachingKernel
