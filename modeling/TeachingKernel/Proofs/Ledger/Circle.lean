import TeachingKernel.Proofs.Ledger.Runs

/-!
# The ring as a circular list

A walk around the ring from the hand shows a list of entries. The operations of a ledger are
operations on this list alone: slots, links and the hand are not in it. A frame that is lent goes to
the end, a frame that comes back is struck out, and to choose a victim turns the list until the
victim is last. Every ledger that can be reached answers as this list does.
-/

namespace TeachingKernel

/-- What goes on after something else answers if both do. -/
theorem Checked.bind_eq_ok {α β : Type} {x : Checked α} {f : α → Checked β} {b : β} :
    x >>= f = .ok b ↔ ∃ a, x = .ok a ∧ f a = .ok b := by
  cases x <;> simp [bind, Except.bind]

structure Entry where
  frame : PhysAddr
  holders : List Holder
  lastUsed : Nat
  deriving DecidableEq

def Loan.entry (loan : Loan) : Entry := ⟨loan.frame, loan.holders, loan.lastUsed⟩

/-- The entry after a process let go of the frame at every address. -/
def Entry.without (e : Entry) (pid : Pid) : Entry :=
  { e with holders := e.holders.filter (·.pid ≠ pid) }

/-- Without its only process an entry has no holder. -/
theorem Loan.onlyHeldBy_eq (loan : Loan) (pid : Pid) :
    loan.onlyHeldBy pid = (loan.entry.without pid).holders.isEmpty := by
  rw [Bool.eq_iff_iff]
  simp [Loan.onlyHeldBy, Loan.entry, Entry.without]

/-! ## Marks of use that are cleared -/

section Marks

variable {σ : Type} [UseBits σ] {bits bits' : σ} {epoch : Nat}

/-- Accessed marks were cleared, one after the other, and nothing else was changed. -/
def Cleared (bits bits' : σ) : Prop :=
  ∃ holders : List Holder, bits' = holders.foldl UseBits.clearAccessed bits

theorem Cleared.refl (bits : σ) : Cleared bits bits := ⟨[], rfl⟩

theorem Cleared.clear (bits : σ) (h : Holder) : Cleared bits (UseBits.clearAccessed bits h) :=
  ⟨[h], rfl⟩

theorem Cleared.trans {bits'' : σ} (h : Cleared bits bits') (h' : Cleared bits' bits'') :
    Cleared bits bits'' := by
  obtain ⟨hs, rfl⟩ := h
  obtain ⟨hs', rfl⟩ := h'
  exact ⟨hs ++ hs', List.foldl_append.symm⟩

/-- To take the marks of a frame clears marks, and tells truly whether one was found. -/
theorem cleared_takeAccessed (holders : List Holder) (bits : σ) :
    Cleared bits (takeAccessed holders bits).2 ∧
      ((takeAccessed holders bits).1 = true →
        ∃ h ∈ holders, ∃ bits', Cleared bits bits' ∧ UseBits.isAccessed bits' h = true) := by
  induction holders generalizing bits with
  | nil => exact ⟨.refl bits, fun h => by simp [takeAccessed] at h⟩
  | cons holder holders ih =>
    unfold takeAccessed
    split
    · rename_i hm
      exact ⟨(Cleared.clear bits holder).trans (ih _).1,
        fun _ => ⟨holder, List.mem_cons_self, bits, .refl bits, hm⟩⟩
    · refine ⟨(ih bits).1, fun ht => ?_⟩
      obtain ⟨h, hm, hf⟩ := (ih bits).2 ht
      exact ⟨h, List.mem_cons_of_mem _ hm, hf⟩

/-- An entry before and after the hand passed, at some time while marks are cleared. The time of its
last use changes if one of its holders is found to have used the frame. -/
structure Entry.Passed (epoch : Nat) (bits : σ) (e e' : Entry) : Prop where
  frame_eq : e'.frame = e.frame
  holders_eq : e'.holders = e.holders
  lastUsed : e'.lastUsed = e.lastUsed ∨ e'.lastUsed = epoch ∧
    ∃ h ∈ e.holders, ∃ bits', Cleared bits bits' ∧ UseBits.isAccessed bits' h = true

namespace Entry.Passed

theorem refl (epoch : Nat) (bits : σ) (e : Entry) : Entry.Passed epoch bits e e :=
  ⟨rfl, rfl, .inl rfl⟩

theorem refreshed {e : Entry} {loan : Loan} (h : Entry.Passed epoch bits e loan.entry)
    (hc : Cleared bits bits') (hot : (takeAccessed loan.holders bits').1 = true) :
    Entry.Passed epoch bits e (loan.refreshed epoch).entry where
  frame_eq := h.frame_eq
  holders_eq := h.holders_eq
  lastUsed := by
    obtain ⟨holder, hm, bits'', hc', ha⟩ := (cleared_takeAccessed loan.holders bits').2 hot
    exact .inr ⟨rfl, holder, h.holders_eq ▸ hm, bits'', hc.trans hc', ha⟩

end Entry.Passed

namespace FrameLedger

def entriesOf (es : List (Nat × Loan)) : List Entry := es.map fun e => e.2.entry

theorem entriesOf_cons (e : Nat × Loan) (es : List (Nat × Loan)) :
    entriesOf (e :: es) = e.2.entry :: entriesOf es := rfl

theorem entriesOf_append (xs ys : List (Nat × Loan)) :
    entriesOf (xs ++ ys) = entriesOf xs ++ entriesOf ys := List.map_append

/-- A sweep turns the list and passes entries. Here `S` are the entries from before, in the place to
which the list has turned. -/
theorem forall₂_sweep (policy : Policy) (count : Nat) {S : List Entry} {es : List (Nat × Loan)}
    (fallback : Option Nat) (h : List.Forall₂ (Entry.Passed epoch bits) S (entriesOf es))
    (hc : Cleared bits bits') :
    ∃ n, List.Forall₂ (Entry.Passed epoch bits) (S.rotate n)
      (entriesOf (sweep policy epoch count es fallback bits').2.1) := by
  induction count generalizing S es fallback bits' with
  | zero => exact ⟨0, by rwa [List.rotate_zero]⟩
  | succ count ih =>
    cases es with
    | nil => exact ⟨0, by rwa [List.rotate_zero]⟩
    | cons e es =>
      obtain ⟨x, S, hx, hS, rfl⟩ := List.forall₂_cons_right_iff.mp h
      have hc' := hc.trans (cleared_takeAccessed e.2.holders bits').1
      have hturn : ∀ {loan : Loan} (fallback' : Option Nat),
          Entry.Passed epoch bits x loan.entry →
          ∃ n, List.Forall₂ (Entry.Passed epoch bits) ((x :: S).rotate n)
            (entriesOf (sweep policy epoch count (es ++ [(e.1, loan)]) fallback'
              (takeAccessed e.2.holders bits').2).2.1) := by
        intro loan fallback' hpassed
        have hlast : List.Forall₂ (Entry.Passed epoch bits) (S ++ [x])
            (entriesOf (es ++ [(e.1, loan)])) := by
          rw [entriesOf_append]
          exact List.rel_append hS (.cons hpassed .nil)
        obtain ⟨n, hn⟩ := ih fallback' hlast hc'
        exact ⟨n + 1, by rwa [List.rotate_cons_succ]⟩
      unfold sweep
      split
      rename_i isHot bits'' htaken
      rw [htaken] at hturn
      split
      · rename_i hot
        refine hturn _ (hx.refreshed hc ?_)
        rw [htaken]
        exact hot
      · split
        · exact hturn _ hx
        · split
          · exact ⟨0, by rwa [List.rotate_zero]⟩
          · exact hturn _ hx

end FrameLedger

end Marks

/-- If a list can be turned so that an entry stands between two others, then before it stood between
others, which were the same from behind it around to it. -/
theorem exists_append_of_isRotated {α : Type} {S X Y : List α} {e : α}
    (h : S.IsRotated (X ++ e :: Y)) : ∃ A B, S = A ++ e :: B ∧ B ++ A = Y ++ X := by
  obtain ⟨n, hn, rfl⟩ := List.isRotated_iff_mod.mp h.symm
  rw [List.rotate_eq_drop_append_take hn]
  by_cases hx : n ≤ X.length
  · refine ⟨X.drop n, Y ++ X.take n, ?_, ?_⟩
    · rw [List.drop_append_of_le_length hx, List.take_append_of_le_length hx]
      simp
    · rw [List.append_assoc, List.take_append_drop]
  · obtain ⟨m, rfl⟩ : ∃ m, n = X.length + 1 + m := ⟨n - X.length - 1, by omega⟩
    refine ⟨Y.drop m ++ X, Y.take m, ?_, ?_⟩
    · rw [show X ++ e :: Y = (X ++ [e]) ++ Y by simp,
        show X.length + 1 + m = (X ++ [e]).length + m by simp, List.drop_length_add_append,
        List.take_length_add_append]
      simp
    · rw [← List.append_assoc, List.take_append_drop]

/-! ## The circular list -/

structure Circle where
  epoch : Nat
  entries : List Entry
  deriving DecidableEq

namespace FrameLedger.Operation

def Answer {σ : Type} : Operation σ → Type
  | lend .. => Except FrameError PhysAddr
  | share .. => Except FrameError Unit
  | release .. => Release
  | releaseMapping .. => Release
  | releaseAll _ => List PhysAddr
  | pickVictim _ => Option PhysAddr
  | advance _ => Unit

variable {σ : Type} [UseBits σ]

def call : (op : Operation σ) → FrameLedger → Checked (op.Answer × FrameLedger)
  | lend holder bits, l => do
    let (answer, l, _) ← l.lend holder bits
    return (answer, l)
  | share frame holder, l => do
    match ← l.share frame holder with
    | .ok l => return (Except.ok (), l)
    | .error error => return (Except.error error, l)
  | release pid frame, l => l.release pid frame
  | releaseMapping holder frame, l => l.releaseMapping holder frame
  | releaseAll pid, l => l.releaseAll pid
  | pickVictim bits, l => do
    let (victim, l, _) ← l.pickVictim bits
    return (victim, l)
  | advance ticks, l => return ((), l.advance ticks)

section

variable {l l' : FrameLedger} {holder : Holder} {frame : PhysAddr} {bits bits' : σ}

theorem call_lend {answer : Except FrameError PhysAddr}
    (h : l.lend holder bits = .ok (answer, l', bits')) :
    (lend holder bits).call l = .ok (answer, l') := Checked.bind_eq_ok.mpr ⟨_, h, rfl⟩

theorem call_share (h : l.share frame holder = .ok (.ok l')) :
    (share frame holder : Operation σ).call l = .ok (Except.ok (), l') :=
  Checked.bind_eq_ok.mpr ⟨_, h, rfl⟩

theorem call_share_error {error : FrameError} (h : l.share frame holder = .ok (.error error)) :
    (share frame holder : Operation σ).call l = .ok (Except.error error, l) :=
  Checked.bind_eq_ok.mpr ⟨_, h, rfl⟩

theorem call_pickVictim {victim : Option PhysAddr}
    (h : l.pickVictim bits = .ok (victim, l', bits')) :
    (pickVictim bits).call l = .ok (victim, l') := Checked.bind_eq_ok.mpr ⟨_, h, rfl⟩

end

/-- An operation leaves the ledger that it answers with. -/
theorem perform_eq_map_call (op : Operation σ) (l : FrameLedger) :
    op.perform l = (op.call l).map Prod.snd := by
  cases op with
  | lend holder bits =>
    simp only [perform, call]
    cases l.lend holder bits <;> rfl
  | share frame holder =>
    simp only [perform, call]
    rcases l.share frame holder with _ | _ | _ <;> rfl
  | release pid frame =>
    simp only [perform, call]
    cases l.release pid frame <;> rfl
  | releaseMapping holder frame =>
    simp only [perform, call]
    cases l.releaseMapping holder frame <;> rfl
  | releaseAll pid =>
    simp only [perform, call]
    cases l.releaseAll pid <;> rfl
  | pickVictim bits =>
    simp only [perform, call]
    cases l.pickVictim bits <;> rfl
  | advance ticks => rfl

end FrameLedger.Operation

namespace Circle

open FrameLedger (Operation)

variable {σ : Type} [UseBits σ]

-- The list turns until the victim is the last. Every entry keeps its frame and its holders.
inductive Turns (epoch : Nat) (bits : σ) : List Entry → Option PhysAddr → List Entry → Prop
  | none : Turns epoch bits [] none []
  | some {A B S : List Entry} {e : Entry}
      (h : List.Forall₂ (Entry.Passed epoch bits) (B ++ A ++ [e]) S) :
      Turns epoch bits (A ++ e :: B) (some e.frame) S

-- The first holder of a frame that passes the test lets go.
inductive LetsGo (frame : PhysAddr) (test : Holder → Bool) :
    List Entry → Release → List Entry → Prop
  | untracked {S : List Entry} (hn : ∀ e ∈ S, e.frame ≠ frame) : LetsGo frame test S .untracked S
  | notReferenced {S : List Entry} {e : Entry} (he : e ∈ S) (hf : e.frame = frame)
      (hn : ∀ h ∈ e.holders, test h = false) : LetsGo frame test S .notReferenced S
  | shared {A B : List Entry} {e : Entry} {X Y : List Holder} {h : Holder} (hf : e.frame = frame)
      (he : e.holders = X ++ h :: Y) (hn : ∀ h ∈ X, test h = false) (ht : test h = true)
      (hr : X ++ Y ≠ []) :
      LetsGo frame test (A ++ e :: B) (.shared (X ++ Y).length)
        (A ++ { e with holders := X ++ Y } :: B)
  | freed {A B : List Entry} {e : Entry} {h : Holder} (hf : e.frame = frame)
      (he : e.holders = [h]) (ht : test h = true) : LetsGo frame test (A ++ e :: B) .freed (A ++ B)

inductive Allows : Circle → (op : Operation σ) → op.Answer → Circle → Prop
  | lend {epoch : Nat} {S : List Entry} {holder : Holder} {bits : σ} {frame : PhysAddr}
      (hn : ∀ e ∈ S, holder ∉ e.holders) (hf : ∀ e ∈ S, e.frame ≠ frame) :
      Allows ⟨epoch, S⟩ (.lend holder bits) (Except.ok frame)
        ⟨epoch + 1, S ++ [⟨frame, [holder], epoch + 1⟩]⟩
  | lend_duplicate {C : Circle} {holder : Holder} {bits : σ} {e : Entry} (he : e ∈ C.entries)
      (hm : holder ∈ e.holders) :
      Allows C (.lend holder bits) (Except.error (.duplicateReference holder)) C
  | lend_outOfFrames {epoch : Nat} {S S' : List Entry} {holder : Holder} {bits : σ}
      {victim : Option PhysAddr} (hn : ∀ e ∈ S, holder ∉ e.holders)
      (ht : Turns epoch bits S victim S') :
      Allows ⟨epoch, S⟩ (.lend holder bits) (Except.error (.outOfFrames victim)) ⟨epoch, S'⟩
  | share {epoch : Nat} {A B : List Entry} {e : Entry} {holder : Holder}
      (hn : ∀ e' ∈ A ++ e :: B, holder ∉ e'.holders) :
      Allows ⟨epoch, A ++ e :: B⟩ (.share e.frame holder) (Except.ok ())
        ⟨epoch, A ++ { e with holders := e.holders ++ [holder] } :: B⟩
  | share_duplicate {C : Circle} {frame : PhysAddr} {holder : Holder} {e : Entry}
      (he : e ∈ C.entries) (hm : holder ∈ e.holders) :
      Allows C (.share frame holder) (Except.error (.duplicateReference holder)) C
  | share_notTracked {C : Circle} {frame : PhysAddr} {holder : Holder}
      (hn : ∀ e ∈ C.entries, holder ∉ e.holders) (hf : ∀ e ∈ C.entries, e.frame ≠ frame) :
      Allows C (.share frame holder) (Except.error (.notTracked frame)) C
  | release {epoch : Nat} {S S' : List Entry} {pid : Pid} {frame : PhysAddr} {answer : Release}
      (h : LetsGo frame (·.pid = pid) S answer S') :
      Allows ⟨epoch, S⟩ (.release pid frame) answer ⟨epoch, S'⟩
  | releaseMapping {epoch : Nat} {S S' : List Entry} {holder : Holder} {frame : PhysAddr}
      {answer : Release} (h : LetsGo frame (· = holder) S answer S') :
      Allows ⟨epoch, S⟩ (.releaseMapping holder frame) answer ⟨epoch, S'⟩
  /-- The process goes from every entry, and then the entries without a holder go. -/
  | releaseAll {epoch : Nat} {S : List Entry} {pid : Pid} :
      Allows ⟨epoch, S⟩ (.releaseAll pid)
        ((S.filter fun e => (e.without pid).holders.isEmpty).map Entry.frame)
        ⟨epoch, (S.map (·.without pid)).filter fun e => !e.holders.isEmpty⟩
  | pickVictim {epoch : Nat} {S S' : List Entry} {bits : σ} {victim : Option PhysAddr}
      (h : Turns epoch bits S victim S') :
      Allows ⟨epoch, S⟩ (.pickVictim bits) victim ⟨epoch, S'⟩
  | advance {epoch : Nat} {S : List Entry} {ticks : Nat} :
      Allows ⟨epoch, S⟩ (.advance ticks) () ⟨epoch + ticks, S⟩

end Circle

namespace FrameLedger

open TeachingKernel.Circle (Turns LetsGo Allows)

variable {σ : Type} [UseBits σ] {l l' : FrameLedger} {es es' : List (Nat × Loan)}

def circle (l : FrameLedger) : Checked Circle := do
  return ⟨l.epoch, (← l.toList).map Loan.entry⟩

theorem Keeps.circle (h : l.Keeps es) : l.circle = .ok ⟨l.epoch, entriesOf es⟩ := by
  simp only [FrameLedger.circle, h.toList, bind, Except.bind, pure, Except.pure, List.map_map]
  rfl

theorem forall_entriesOf {p : Entry → Prop} (h : ∀ e ∈ es, p e.2.entry) :
    ∀ e ∈ entriesOf es, p e := by
  intro x hx
  obtain ⟨e, he, rfl⟩ := List.mem_map.mp hx
  exact h e he

/-- The loans after a victim was chosen, by what the sweep leaves. -/
theorem Picks.exists_sweep {bits bits' : σ} {victim : Option PhysAddr} {e : Nat × Loan}
    (hpick : Picks l (e :: es) bits victim l' bits' es') (h : l.Keeps (e :: es)) :
    ∃ xs slot loan ys, victim = some loan.frame ∧
      (sweep l.policy l.epoch (2 * (es.length + 1)) (e :: es) none bits).2.1 =
        xs ++ (slot, loan) :: ys ∧
      es' = ys ++ xs ++ [(slot, { loan with chosen := true })] := by
  obtain ⟨xs, slot, loan, ys, loans', _, hsweep, hrun, hr⟩ := pickVictim_eq h.ring bits
  rw [hpick.run] at hrun
  simp only [Except.ok.injEq, Prod.mk.injEq] at hrun
  obtain ⟨rfl, rfl, _⟩ := hrun
  refine ⟨xs, slot, loan, ys, rfl, hsweep, ?_⟩
  simpa using hpick.keeps.ring.entries.symm.trans hr.entries

/-- To choose a victim turns the list. -/
theorem Picks.turns {bits bits' : σ} {victim : Option PhysAddr}
    (hpick : Picks l es bits victim l' bits' es') (h : l.Keeps es) :
    Turns l.epoch bits (entriesOf es) victim (entriesOf es') := by
  cases es with
  | nil =>
    obtain rfl := hpick.eq_none_iff.mpr rfl
    obtain rfl : es' = [] := by simpa [outline] using hpick.isRotated
    exact .none
  | cons e es =>
    obtain ⟨xs, slot, loan, ys, rfl, hsweep, rfl⟩ := hpick.exists_sweep h
    obtain ⟨n, hn⟩ := forall₂_sweep l.policy (2 * (es.length + 1)) none
      (List.forall₂_same.mpr fun x _ => Entry.Passed.refl l.epoch bits x)
      (Cleared.refl bits)
    rw [hsweep, entriesOf_append xs] at hn
    -- where the victim stood before the sweep, and what stood around it
    have hX := List.forall₂_take_append _ _ _ hn
    obtain ⟨v, Y, hv, hY, hdrop⟩ :=
      List.forall₂_cons_right_iff.mp (List.forall₂_drop_append _ _ _ hn)
    have hrot : (entriesOf (e :: es)).IsRotated
        (((entriesOf (e :: es)).rotate n).take (entriesOf xs).length ++ v :: Y) :=
      ⟨n, (List.take_append_drop _ _).symm.trans (congrArg _ hdrop)⟩
    obtain ⟨A, B, hS, haround⟩ := exists_append_of_isRotated hrot
    have hturned : List.Forall₂ (Entry.Passed l.epoch bits) (B ++ A ++ [v])
        (entriesOf (ys ++ xs ++ [(slot, { loan with chosen := true })])) := by
      rw [haround, entriesOf_append, entriesOf_append]
      exact List.rel_append (List.rel_append hY hX) (.cons hv .nil)
    have hturns := Turns.some hturned
    rw [← show loan.frame = v.frame from hv.frame_eq] at hturns
    rwa [hS]

/-- To let go of a frame takes the first holder that passes the test off its entry. -/
theorem Keeps.letsGo (h : l.Keeps es) (frame : PhysAddr) (test : Holder → Bool) :
    ∃ answer l' es', l.releaseWhere frame test = .ok (answer, l') ∧ l'.Keeps es' ∧
      l'.epoch = l.epoch ∧ LetsGo frame test (entriesOf es) answer (entriesOf es') := by
  rcases h.releaseWhere frame test with ⟨hrun, hf⟩ | ⟨xs, slot, loan, ys, rfl, hf, hrun⟩
  · exact ⟨_, l, es, hrun, h, rfl, .untracked (forall_entriesOf hf)⟩
  · rw [hrun]
    rcases h.letGo test with ⟨hgo, hn⟩ | ⟨⟨holder, hm, ht⟩, hcases⟩
    · refine ⟨_, l, _, hgo, h, rfl, .notReferenced (e := loan.entry) ?_ hf hn⟩
      simp [entriesOf]
    · obtain ⟨first, X, Y, hX, hfirst, hsplit, herase⟩ := List.exists_of_eraseP hm ht
      have hX' : ∀ h ∈ X, test h = false := fun h hh => by simpa using hX h hh
      rw [herase] at hcases
      rw [entriesOf_append, entriesOf_cons]
      rcases hcases with ⟨loans', hne, hgo, hk⟩ | ⟨i, loans', hnil, _, hgo, hk⟩
      · refine ⟨_, _, _, hgo, hk, rfl, ?_⟩
        rw [entriesOf_append, entriesOf_cons]
        exact .shared (e := loan.entry) hf hsplit hX' hfirst hne
      · refine ⟨_, _, _, hgo, hk, rfl, ?_⟩
        obtain ⟨rfl, rfl⟩ := List.append_eq_nil_iff.mp hnil
        rw [entriesOf_append]
        exact .freed (e := loan.entry) hf hsplit hfirst

/-- The entries after a process let go of all its frames. -/
theorem entriesOf_dismiss (pid : Pid) (es : List (Nat × Loan)) :
    entriesOf (dismiss pid es) =
      ((entriesOf es).map (·.without pid)).filter fun e => !e.holders.isEmpty := by
  simp only [entriesOf, dismiss, List.map_map, List.filter_map, Function.comp_def,
    Loan.onlyHeldBy_eq]
  rfl

/-- One operation. -/
theorem Keeps.exists_call (h : l.Keeps es) (op : Operation σ) :
    ∃ answer l' es', op.call l = .ok (answer, l') ∧ l'.Keeps es' ∧
      Allows ⟨l.epoch, entriesOf es⟩ op answer ⟨l'.epoch, entriesOf es'⟩ := by
  cases op with
  | lend holder bits =>
    rcases h.lend holder bits with ⟨hrun, e, he, hm⟩ | ⟨i, slot, loans', hi, hn, hrun, hk⟩ |
      ⟨victim, l', bits', es', _, hn, hpick, hrun⟩
    · exact ⟨_, l, es, Operation.call_lend hrun, h,
        .lend_duplicate (e := e.2.entry) (List.mem_map_of_mem he) hm⟩
    · refine ⟨_, _, _, Operation.call_lend hrun, hk, ?_⟩
      have hf := h.books.frame_ne_of_free hi
      rw [entriesOf_append]
      exact .lend (forall_entriesOf hn)
        (forall_entriesOf fun e he => hf e.2 (List.mem_map_of_mem he))
    · refine ⟨_, l', es', Operation.call_lend hrun, hpick.keeps, ?_⟩
      rw [hpick.epoch_eq]
      exact .lend_outOfFrames (forall_entriesOf hn) (hpick.turns h)
  | share frame holder =>
    rcases h.share frame holder with ⟨hrun, e, he, hm⟩ | ⟨hrun, hn, hf⟩ |
      ⟨xs, slot, loan, ys, loans', rfl, rfl, hn, hrun, hk⟩
    · exact ⟨_, l, es, Operation.call_share_error hrun, h,
        .share_duplicate (e := e.2.entry) (List.mem_map_of_mem he) hm⟩
    · exact ⟨_, l, es, Operation.call_share_error hrun, h,
        .share_notTracked (forall_entriesOf hn) (forall_entriesOf hf)⟩
    · refine ⟨_, _, _, Operation.call_share hrun, hk, ?_⟩
      have hn' := forall_entriesOf (p := fun e => holder ∉ e.holders) hn
      rw [entriesOf_append, entriesOf_cons] at hn' ⊢
      rw [entriesOf_append, entriesOf_cons]
      exact .share hn'
  | release pid frame =>
    obtain ⟨answer, l', es', hrun, hk, he, hgo⟩ := h.letsGo frame (·.pid = pid)
    refine ⟨answer, l', es', hrun, hk, ?_⟩
    rw [he]
    exact .release hgo
  | releaseMapping holder frame =>
    obtain ⟨answer, l', es', hrun, hk, he, hgo⟩ := h.letsGo frame (· = holder)
    refine ⟨answer, l', es', hrun, hk, ?_⟩
    rw [he]
    exact .releaseMapping hgo
  | releaseAll pid =>
    obtain ⟨l', hrun, hk, _, he, _⟩ := h.releaseAll pid
    have hfreed : (es.filter fun e => e.2.onlyHeldBy pid).map (fun e => e.2.frame) =
        ((entriesOf es).filter fun e => (e.without pid).holders.isEmpty).map Entry.frame := by
      simp only [entriesOf, List.filter_map, List.map_map, Function.comp_def, Loan.onlyHeldBy_eq]
      rfl
    refine ⟨_, l', _, hrun, hk, ?_⟩
    rw [he, entriesOf_dismiss, hfreed]
    exact .releaseAll
  | pickVictim bits =>
    obtain ⟨victim, l', bits', es', hpick⟩ := h.pickVictim bits
    refine ⟨victim, l', es', Operation.call_pickVictim hpick.run, hpick.keeps, ?_⟩
    rw [hpick.epoch_eq]
    exact .pickVictim (hpick.turns h)
  | advance ticks => exact ⟨(), _, es, rfl, h.advance ticks, .advance⟩

/-- The frame under the hand is that of the first entry. -/
theorem Keeps.handFrame? (h : l.Keeps es) :
    l.handFrame? = .ok ((entriesOf es).head?.map Entry.frame) := by
  cases es with
  | nil =>
    simp only [FrameLedger.handFrame?, CircularList.handValue?, h.ring.hand_eq, List.head?_nil,
      Option.map_none, bind, Except.bind, pure, Except.pure]
    rfl
  | cons e es =>
    obtain ⟨n, hn, hv⟩ := h.ring.node_of_mem List.mem_cons_self
    simp only [FrameLedger.handFrame?, CircularList.handValue?, h.ring.hand_eq, List.head?_cons,
      Option.map_some, hn, hv, bind, Except.bind, pure, Except.pure]
    rfl

/-- The ring is a plain circular list: after every run, whatever is then asked of the ledger, it
answers as its list does, and its list becomes what the answer says. The hand is at the head of the
list. -/
theorem call_as_circle {base : PhysAddr} {total : Nat} {pool : PagePool}
    (hp : PagePool.create base total = .ok pool)
    (hfits : base.toNat + total * pageSize ≤ addressBound) (policy : Policy)
    (ops : List (Operation σ)) :
    ∃ l C, performAll ops (fresh pool policy) = .ok l ∧ l.circle = .ok C ∧
      l.handFrame? = .ok (C.entries.head?.map Entry.frame) ∧
      ∀ op : Operation σ, ∃ answer l' C', op.call l = .ok (answer, l') ∧
        op.perform l = .ok l' ∧ l'.circle = .ok C' ∧
        l'.handFrame? = .ok (C'.entries.head?.map Entry.frame) ∧ Allows C op answer C' := by
  obtain ⟨hk, _⟩ := keeps_create hp hfits policy
  obtain ⟨l, es, hrun, hk', _⟩ := hk.performAll ops
  refine ⟨l, _, hrun, hk'.circle, hk'.handFrame?, fun op => ?_⟩
  obtain ⟨answer, l', es', hcall, hk'', hallows⟩ := hk'.exists_call op
  have hperform : op.perform l = .ok l' := by
    rw [Operation.perform_eq_map_call, hcall]
    rfl
  exact ⟨answer, l', _, hcall, hperform, hk''.circle, hk''.handFrame?, hallows⟩

/-- Of three frames the first was used. The hand passes it over and chooses the second. -/
theorem call_as_circle_of_three_frames :
    PagePool.create (.ofNat poolBase) 3 = .ok (PagePool.user 3) ∧
      (Address.ofNat poolBase : PhysAddr).toNat + 3 * pageSize ≤ addressBound ∧
      ∃ (l l' : FrameLedger) (C C' : Circle),
        performAll [.lend ⟨⟨1⟩, .ofNat 0x1000⟩ ({} : UseSets), .lend ⟨⟨2⟩, .ofNat 0x1000⟩ {},
            .lend ⟨⟨3⟩, .ofNat 0x1000⟩ {}] (fresh (PagePool.user 3) .clock) = .ok l ∧
        l.circle = .ok C ∧ l'.circle = .ok C' ∧
        C.entries.map (fun e => (e.frame, e.lastUsed)) =
          [(.ofNat poolBase, 1), (.ofNat (poolBase + pageSize), 2),
            (.ofNat (poolBase + 2 * pageSize), 3)] ∧
        C'.entries.map (fun e => (e.frame, e.lastUsed)) =
          [(.ofNat (poolBase + 2 * pageSize), 3), (.ofNat poolBase, 3),
            (.ofNat (poolBase + pageSize), 2)] ∧
        Allows C (Operation.pickVictim (UseSets.access {} ⟨⟨1⟩, .ofNat 0x1000⟩))
          (some (.ofNat (poolBase + pageSize))) C' := by
  have hp : PagePool.create (.ofNat poolBase) 3 = .ok (PagePool.user 3) := rfl
  have hfits : (Address.ofNat poolBase : PhysAddr).toNat + 3 * pageSize ≤ addressBound := by decide
  -- the lists and the answer, computed at once
  have hall : (do
      let l ← performAll [.lend ⟨⟨1⟩, .ofNat 0x1000⟩ ({} : UseSets),
        .lend ⟨⟨2⟩, .ofNat 0x1000⟩ {}, .lend ⟨⟨3⟩, .ofNat 0x1000⟩ {}]
        (fresh (PagePool.user 3) .clock)
      let C ← l.circle
      let (victim, l', _) ← l.pickVictim (UseSets.access {} ⟨⟨1⟩, .ofNat 0x1000⟩)
      let C' ← l'.circle
      return (C.entries.map (fun e : Entry => (e.frame, e.lastUsed)), victim,
        C'.entries.map fun e : Entry => (e.frame, e.lastUsed))) = .ok (
          [(.ofNat poolBase, 1), (.ofNat (poolBase + pageSize), 2),
            (.ofNat (poolBase + 2 * pageSize), 3)],
          some (.ofNat (poolBase + pageSize)),
          [(.ofNat (poolBase + 2 * pageSize), 3), (.ofNat poolBase, 3),
            (.ofNat (poolBase + pageSize), 2)]) := by
    decide +kernel
  obtain ⟨l, C, hrun, hC, _, hcalls⟩ := call_as_circle hp hfits .clock
    [.lend ⟨⟨1⟩, .ofNat 0x1000⟩ ({} : UseSets), .lend ⟨⟨2⟩, .ofNat 0x1000⟩ {},
      .lend ⟨⟨3⟩, .ofNat 0x1000⟩ {}]
  obtain ⟨answer, l', C', hcall, _, hC', _, hallows⟩ :=
    hcalls (.pickVictim (UseSets.access {} ⟨⟨1⟩, .ofNat 0x1000⟩))
  obtain ⟨_, hrun', hall⟩ := Checked.bind_eq_ok.mp hall
  cases hrun'.symm.trans hrun
  obtain ⟨_, hC₁, hall⟩ := Checked.bind_eq_ok.mp hall
  cases hC₁.symm.trans hC
  obtain ⟨⟨victim, _, _⟩, hpick, hall⟩ := Checked.bind_eq_ok.mp hall
  obtain ⟨_, hC₂, hall⟩ := Checked.bind_eq_ok.mp hall
  simp only [pure, Except.pure, Except.ok.injEq, Prod.mk.injEq] at hall
  obtain ⟨hfirst, rfl, hlast⟩ := hall
  obtain ⟨_, hpick', hcall⟩ := Checked.bind_eq_ok.mp hcall
  cases hpick.symm.trans hpick'
  cases hcall
  cases hC₂.symm.trans hC'
  exact ⟨hp, hfits, _, _, _, _, hrun, hC, hC', hfirst, hlast, hallows⟩

end FrameLedger

end TeachingKernel
