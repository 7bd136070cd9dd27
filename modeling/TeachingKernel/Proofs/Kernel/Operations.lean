import TeachingKernel.Proofs.Kernel.Coherence
import TeachingKernel.Proofs.Kernel.Within
import TeachingKernel.Proofs.Memory.Storing
import TeachingKernel.Kernel.Memory

/-!
# What each operation does

For each operation of the kernel one lemma says that it answers, which of the ways to change the
holdings it takes, and what becomes of the bytes in the frames.
-/

namespace TeachingKernel.Kernel

open KernelM FrameLedger

variable {φ η χ ω : Type} {k k' : Kernel φ η χ ω} {es es' : List (Nat × Loan)} {pid : Pid}
  {va : VirtAddr} {writable : Bool}

def SameBytes (k k' : Kernel φ η χ ω) (es : List (Nat × Loan)) : Prop :=
  ∀ f g, Lends es f g → k'.frames.pool.page? f = k.frames.pool.page? f

/-! ## Frames lent and given back -/

theorem run_lendFrame {holder : Holder} {answer : Except FrameError PhysAddr}
    {frames : FrameLedger} {processes : Processes η}
    (h : k.frames.lend holder k.processes = .ok (answer, frames, processes)) :
    (lendFrame holder).run k = .ok (answer, { k with frames, processes },
      (Notice.ofLend frames.policy holder answer).map .notice) := by
  simp only [lendFrame, run, bind, KernelM.get, ofChecked, h, Except.map, setFrames, setProcesses,
    KernelM.modify, notices, emit, pure, List.nil_append, List.append_nil]

theorem run_releaseMapping {holder : Holder} {frame : PhysAddr} {answer : Release}
    {frames : FrameLedger} (h : k.frames.releaseMapping holder frame = .ok (answer, frames)) :
    (releaseMapping holder frame).run k =
      .ok (answer, { k with frames }, (Notice.ofRelease frame answer).map .notice) := by
  simp only [releaseMapping, run, bind, KernelM.get, ofChecked, h, Except.map, setFrames,
    KernelM.modify, notices, emit, pure, List.nil_append, List.append_nil]

/-- To ask for a frame changes nothing that matters, or hands out a zeroed frame that nobody
holds. -/
theorem lendFrame_cases (h : k.frames.Keeps es) (holder : Holder) :
    ∃ answer k' events es', (lendFrame holder).run k = .ok (answer, k', events) ∧
      k'.frames.Keeps es' ∧ k.processes.SameLayout k'.processes ∧ SameBytes k k' es ∧
      ((∃ error, answer = .error error) ∧ (∀ f g, Lends es' f g ↔ Lends es f g) ∨
        ∃ frame, answer = .ok frame ∧ (∀ g, ¬ Lends es frame g) ∧
          k'.frames.pool.page? frame = some Page.zero ∧
          ∀ f g, Lends es' f g ↔ Lends es f g ∨ f = frame ∧ g = holder) := by
  rcases h.lend holder k.processes with ⟨hrun, _⟩ | ⟨i, slot, loans', hi, _, hrun, hk⟩ |
    ⟨victim, l', ps', es', _, _, hpick, hrun⟩
  · exact ⟨_, _, _, es, run_lendFrame hrun, h, .refl _, fun _ _ _ => rfl,
      .inl ⟨⟨_, rfl⟩, fun _ _ => Iff.rfl⟩⟩
  · have hzero :
        (k.frames.pool.handOut i).page? (k.frames.pool.frameAddress i) = some Page.zero := by
      rw [PagePool.page?_handOut, if_pos (PagePool.frame?_frameAddress h.books.sound i)]
    exact ⟨_, _, _, _, run_lendFrame hrun, hk, .refl _,
      fun f g hl => h.page?_handOut_of_lends hi hl,
      .inr ⟨_, rfl, h.not_lends_of_free hi, hzero, fun _ _ => lends_enter⟩⟩
  · have hlayout : k.processes.SameLayout ps' :=
      hpick.marks k.processes.SameLayout
        (fun ps h hs => hs.trans (Processes.sameLayout_clearAccessed ps h)) (.refl _)
    have hpages : ∀ f, l'.pool.page? f = k.frames.pool.page? f := by
      intro f
      rw [hpick.pool_eq]
    exact ⟨_, _, _, es', run_lendFrame hrun, hpick.keeps, hlayout, fun f _ _ => hpages f,
      .inl ⟨⟨_, rfl⟩, fun _ _ => lends_of_isRotated hpick.isRotated⟩⟩

theorem releaseMapping_cases (h : k.frames.Keeps es) (holder : Holder) (frame : PhysAddr) :
    ∃ answer k' events es', (releaseMapping holder frame).run k = .ok (answer, k', events) ∧
      k'.frames.Keeps es' ∧ k'.processes = k.processes ∧
      (∀ f, k'.frames.pool.page? f = k.frames.pool.page? f) ∧
      ∀ f g, Lends es' f g ↔ Lends es f g ∧ ¬ (f = frame ∧ g = holder) := by
  obtain ⟨answer, l', es', hrun, hk, hl, _, hp⟩ := h.releaseMapping holder frame
  exact ⟨answer, _, _, es', run_releaseMapping hrun, hk, rfl, hp.page_eq, hl⟩

/-! ## Pages -/

def backPage (pid : Pid) (va : VirtAddr) (writable : Bool) :
    Except FrameError PhysAddr → KernelM φ η χ ω (Except KernelError PhysAddr)
  | .error error => return .error (.frame error)
  | .ok frame => do
    let k ← get
    match k.processes.get? pid with
    | none => return .error (.noSuchProcess pid)
    | some p => match p.pageTable.map va frame writable with
      | .ok pageTable =>
        setProcesses (k.processes.modify pid ({ · with pageTable }))
        return .ok frame
      | .error error =>
        let _ ← releaseMapping ⟨pid, va⟩ frame
        return .error (.mapping error)

theorem run_mapPage_of_running (hp : k.processes.state? pid = some .running) :
    (mapPage pid va writable).run k = (lendFrame ⟨pid, va⟩ >>= backPage pid va writable).run k := by
  have hnone : (k.processes.running? pid).isNone = false := by
    rw [← Option.not_isSome, k.processes.running?_isSome_iff.mpr hp]
    rfl
  unfold mapPage
  rw [run_get_bind, hnone]
  simp only [Bool.false_eq_true, if_false]
  congr 2

theorem run_mapPage_of_not_running (hp : k.processes.state? pid ≠ some .running) :
    (mapPage pid va writable).run k = .ok (.error (.noSuchProcess pid), k, []) := by
  unfold mapPage
  rw [run_get_bind, k.processes.running?_eq_none_iff.mpr hp]
  rfl

/-- A frame that was lent for a page comes to stand behind it, or it is given back. -/
theorem backPage_cases (h : k.frames.Keeps es) (hp : k.processes.state? pid = some .running)
    (va : VirtAddr) (writable : Bool) (frame : PhysAddr) :
    ∃ answer k' events es',
      (backPage pid va writable (.ok frame)).run k = .ok (answer, k', events) ∧
      k'.frames.Keeps es' ∧ (∀ f, k'.frames.pool.page? f = k.frames.pool.page? f) ∧
      ((∃ error, answer = .error error) ∧ k'.processes = k.processes ∧
          (∀ f g, Lends es' f g ↔ Lends es f g ∧ ¬ (f = frame ∧ g = ⟨pid, va⟩)) ∨
        answer = .ok frame ∧ k.processes.Maps k'.processes ⟨pid, va⟩ frame writable ∧
          ∀ f g, Lends es' f g ↔ Lends es f g) := by
  obtain ⟨p, hget, _⟩ := Option.map_eq_some_iff.mp hp
  unfold backPage
  rw [run_get_bind]
  simp only [hget]
  cases hm : p.pageTable.map va frame writable with
  | ok table =>
    have hmaps := Processes.maps_setTable hget hm
    exact ⟨.ok frame, _, _, es, rfl, h, fun _ => rfl, .inr ⟨rfl, hmaps, fun _ _ => Iff.rfl⟩⟩
  | error error =>
    obtain ⟨answer, k', events, es', hrun, hk, hps, hpages, hl⟩ :=
      releaseMapping_cases h ⟨pid, va⟩ frame
    refine ⟨.error (.mapping error), k', events ++ [], es', ?_, hk, hpages,
      .inl ⟨⟨_, rfl⟩, hps, hl⟩⟩
    exact run_bind_eq_ok.mpr ⟨answer, k', events, [], hrun, rfl, rfl⟩

/-- A page is either refused, and nothing has changed, or it is a new page of zeros. -/
theorem mapPage_cases (h : Coherent k es) (pid : Pid) (va : VirtAddr) (writable : Bool) :
    ∃ answer k' events es', (mapPage pid va writable).run k = .ok (answer, k', events) ∧
      k'.frames.Keeps es' ∧ SameBytes k k' es ∧
      ((∃ error, answer = .error error) ∧ SameHoldings k k' es es' ∨
        ∃ frame, answer = .ok frame ∧ Gains k k' es es' ⟨pid, va⟩ frame writable ∧
          (∀ g, ¬ Lends es frame g) ∧ k'.frames.pool.page? frame = some Page.zero) := by
  by_cases hp : k.processes.state? pid = some .running
  · rw [run_mapPage_of_running hp]
    obtain ⟨lent, k₁, before, es₁, hlend, hk₁, hlayout, hsame, hcases⟩ :=
      lendFrame_cases h.keeps ⟨pid, va⟩
    rcases hcases with ⟨⟨error, rfl⟩, hl₁⟩ | ⟨frame, rfl, hfree, hzero, hl₁⟩
    · refine ⟨.error (.frame error), k₁, before ++ [], es₁, ?_, hk₁, hsame,
        .inl ⟨⟨_, rfl⟩, hlayout, hl₁⟩⟩
      exact run_bind_eq_ok.mpr ⟨_, k₁, before, [], hlend, rfl, rfl⟩
    · have hp₁ : k₁.processes.state? pid = some .running := (hlayout.state_eq pid).trans hp
      obtain ⟨answer, k', after, es', hback, hk', hpages, hcases⟩ :=
        backPage_cases hk₁ hp₁ va writable frame
      refine ⟨answer, k', _, es', run_bind_eq_ok.mpr ⟨_, k₁, before, after, hlend, hback, rfl⟩, hk',
        fun f g hl => (hpages f).trans (hsame f g hl), ?_⟩
      rcases hcases with ⟨herror, hps, hl'⟩ | ⟨rfl, hmaps, hl'⟩
      · -- the frame went back, so the loans are what they were
        have hback : ∀ f g, Lends es' f g ↔ Lends es f g := by
          intro f g
          rw [hl', hl₁]
          constructor
          · rintro ⟨hl | hnew, hne⟩
            · exact hl
            · exact absurd hnew hne
          · intro hl
            constructor
            · exact .inl hl
            · rintro ⟨rfl, _⟩
              exact hfree g hl
        exact .inl ⟨herror, hps ▸ hlayout, hback⟩
      · have hgains : Gains k k' es es' ⟨pid, va⟩ frame writable :=
          ⟨hmaps.of_sameLayout hlayout, hp, fun f g => (hl' f g).trans (hl₁ f g)⟩
        exact .inr ⟨frame, rfl, hgains, hfree, (hpages frame).trans hzero⟩
  · exact ⟨_, k, _, es, run_mapPage_of_not_running hp, h.keeps, fun _ _ _ => rfl,
      .inl ⟨⟨_, rfl⟩, .refl _, fun _ _ => Iff.rfl⟩⟩

theorem run_unmapPage_of_none (hp : k.processes.get? pid = none) :
    (unmapPage pid va).run k = .ok (.error (.noSuchProcess pid), k, []) := by
  unfold unmapPage
  rw [run_get_bind, hp]
  rfl

/-- A page that is there is taken out, along with what the process held at the very address. -/
theorem unmapPage_cases (h : Coherent k es) (pid : Pid) (va : VirtAddr) :
    ∃ answer k' events es', (unmapPage pid va).run k = .ok (answer, k', events) ∧
      k'.frames.Keeps es' ∧ (∀ f, k'.frames.pool.page? f = k.frames.pool.page? f) ∧
      ((∃ error, answer = .error error) ∧ k' = k ∧ es' = es ∧
          k.processes.mapping? pid va = none ∨
        ∃ release frame, answer = .ok release ∧ Loses k k' es es' ⟨pid, va⟩ frame) := by
  cases hget : k.processes.get? pid with
  | none =>
    have hnone : k.processes.mapping? pid va = none := by
      rw [Processes.mapping?, hget]
      rfl
    exact ⟨_, k, _, es, run_unmapPage_of_none hget, h.keeps, fun _ => rfl,
      .inl ⟨⟨_, rfl⟩, rfl, rfl, hnone⟩⟩
  | some p =>
    unfold unmapPage
    rw [run_get_bind]
    simp only [hget]
    cases hm : p.pageTable.unmap va with
    | error error =>
      have hnone : k.processes.mapping? pid va = none :=
        (Processes.mapping?_of_get? hget va).trans (PageTable.of_unmap_eq_error hm)
      exact ⟨_, k, _, es, rfl, h.keeps, fun _ => rfl, .inl ⟨⟨_, rfl⟩, rfl, rfl, hnone⟩⟩
    | ok found =>
      obtain ⟨frame, table⟩ := found
      obtain ⟨release, l', es', hrun, hk, hl, _, hpages⟩ := h.keeps.releaseMapping ⟨pid, va⟩ frame
      have hrelease := run_releaseMapping
        (k := { k with processes := k.processes.modify pid ({ · with pageTable := table }) }) hrun
      exact ⟨.ok release, _, _, es', run_bind_eq_ok.mpr ⟨(), _, [], _, rfl,
        run_bind_eq_ok.mpr ⟨release, _, _, [], hrelease, rfl, rfl⟩, rfl⟩, hk, hpages.page_eq,
        .inr ⟨release, frame, rfl, Processes.unmaps_setTable hget hm, hl⟩⟩

/-! ## Time, uses and copies -/

/-- The layout of the processes and the loans stay; the bytes in the frames may change. -/
def Steady (k k' : Kernel φ η χ ω) : Prop :=
  k.processes.SameLayout k'.processes ∧ ∀ es, k.frames.Keeps es → k'.frames.Keeps es

theorem Steady.sameHoldings (h : Steady k k') (es : List (Nat × Loan)) :
    SameHoldings k k' es es :=
  ⟨h.1, fun _ _ => Iff.rfl⟩

theorem Steady.coherent (hs : Steady k k') (h : Coherent k es) : Coherent k' es :=
  (hs.sameHoldings es).coherent h (hs.2 es h.keeps)

instance : Indifferent (Steady : Kernel φ η χ ω → Kernel φ η χ ω → Prop) where
  refl _ := ⟨.refl _, fun _ => id⟩
  trans _ _ _ h h' := ⟨h.1.trans h'.1, fun es hk => h'.2 es (h.2 es hk)⟩
  setDevices _ _ _ _ := ⟨.refl _, fun _ => id⟩

instance (pid : Pid) : Allows (Steady : Kernel φ η χ ω → Kernel φ η χ ω → Prop) pid where
  setDescriptors _ _ :=
    ⟨Processes.sameLayout_modify pid (fun _ => rfl) fun _ _ => rfl, fun _ => id⟩
  setPool _ _ _ _ _ _ _ hrun := by
    obtain ⟨pages, rfl⟩ := UserMemory.sameUse_of_copyOut hrun
    exact ⟨.refl _, fun es hk => hk.setPages pages⟩

theorem steady_touch (k : Kernel φ η χ ω) (pid : Pid) (va : VirtAddr) (write : Bool) :
    Within Steady k (touch pid va write) := by
  apply within_modify
  exact ⟨Processes.sameLayout_modify pid (fun _ => rfl) fun p x =>
    p.pageTable.mapping?_touch va write x, fun _ => id⟩

theorem steady_tick (k : Kernel φ η χ ω) (ticks : Nat) : Within Steady k (tick ticks) :=
  within_modify ⟨.refl _, fun _ hk => hk.advance ticks⟩

theorem within_copyTo {R : Kernel φ η χ ω → Kernel φ η χ ω → Prop} [Indifferent R] (pid : Pid)
    [AllowsStores R pid] (va : VirtAddr) (bytes : Bytes) : Within R k (copyTo pid va bytes) := by
  apply within_get_bind
  cases hp : k.processes.get? pid with
  | none => exact within_pure _
  | some p =>
    apply within_ofChecked_bind
    intro answer hanswer
    exact within_bind (within_modify (AllowsStores.setPool k p va bytes _ _ hp hanswer)) fun _ _ =>
      within_pure _

/-- To copy from a process changes nothing. -/
theorem within_copyFrom {R : Kernel φ η χ ω → Kernel φ η χ ω → Prop} [Std.Refl R] [IsTrans _ R]
    (pid : Pid) (va : VirtAddr) (dst : Bytes) : Within R k (copyFrom pid va dst) := by
  apply within_get_bind
  cases k.processes.get? pid with
  | none => exact within_pure _
  | some p => exact within_bind (within_ofChecked _) fun _ _ => within_pure _

/-! ## The life of a process -/

/-- The next number is nobody's. -/
theorem Coherent.get?_next (h : Coherent k es) {name : String} {processes : Processes η}
    (hs : k.processes.spawn name = .ok (pid, processes)) : k.processes.get? pid = none := by
  obtain ⟨hkey, _⟩ := Processes.of_spawn_eq_ok hs
  cases hp : k.processes.get? pid with
  | none => rfl
  | some p =>
    have := h.numbered pid p.state (by rw [Processes.state?, hp]; rfl)
    omega

/-- A process that is entered is a new one. -/
theorem of_run_spawn (h : Coherent k es) {name : String} {events : List (Event η)}
    (hrun : (spawn name).run k = .ok (pid, k', events)) :
    k'.frames = k.frames ∧ k.processes.state? pid = none ∧
      Resets k k' es es pid (some .running) := by
  obtain ⟨_, _, _, _, hget, hrun, _⟩ := run_bind_eq_ok.mp hrun
  cases hget
  obtain ⟨⟨p, ps⟩, _, _, _, hspawn, hrun, _⟩ := run_bind_eq_ok.mp hrun
  cases hs : k.processes.spawn name with
  | error d =>
    rw [hs] at hspawn
    contradiction
  | ok found =>
    rw [hs] at hspawn
    cases hspawn
    cases hrun
    obtain ⟨_, hnext, _⟩ := Processes.of_spawn_eq_ok hs
    have hnew : k.processes.state? pid = none := by
      rw [Processes.state?, h.get?_next hs]
      rfl
    have hnot : k.processes.state? pid ≠ some .running := by simp [hnew]
    exact ⟨rfl, hnew, by rw [hnext]; omega, fun _ => by rw [hnext]; omega,
      fun _ => Processes.state?_of_spawn hs, fun _ _ => Processes.mapping?_of_spawn hs,
      h.lends_iff_of_not_running hnot⟩

section Files

variable [FileSystem φ η]

/-- To forget a process that does not run. -/
theorem of_run_reap (h : Coherent k es) (hp : k.processes.state? pid ≠ some .running)
    {answer : Option (UserProcess η)} {events : List (Event η)}
    (hrun : (reap pid).run k = .ok (answer, k', events)) :
    k'.frames = k.frames ∧ Resets k k' es es pid none := by
  unfold reap at hrun
  rw [run_get_bind] at hrun
  cases hget : k.processes.get? pid with
  | none =>
    rw [hget] at hrun
    cases hrun
    have hstate : ∀ q, k.processes.state? q = if q = pid then none else k.processes.state? q := by
      intro q
      split
      · rename_i hq
        rw [hq, Processes.state?, hget]
        rfl
      · rfl
    have hmapping : ∀ q x, k.processes.mapping? q x =
        if q = pid then none else k.processes.mapping? q x := by
      intro q x
      split
      · rename_i hq
        rw [hq, Processes.mapping?, hget]
        rfl
      · rfl
    exact ⟨rfl, Nat.le_refl _, fun hc => by contradiction, hstate, hmapping,
      h.lends_iff_of_not_running hp⟩
  | some p =>
    rw [hget] at hrun
    obtain ⟨_, _, _, _, hset, hrun, _⟩ := run_bind_eq_ok.mp hrun
    cases hset
    obtain ⟨_, _, _, _, hclose, hret, _⟩ := run_bind_eq_ok.mp hrun
    cases hret
    rw [run_closeAll] at hclose
    cases hclose
    exact ⟨rfl, Nat.le_refl _, fun hc => by contradiction, fun _ => Processes.state?_forget,
      fun _ _ => Processes.mapping?_forget, h.lends_iff_of_not_running hp⟩

variable [Host ω]

theorem run_terminate_of_not_running (status : Int32)
    (hp : k.processes.state? pid ≠ some .running) :
    (terminate pid status).run k = .ok (.exit status, k, [.notice (.terminateDead pid)]) := by
  unfold terminate
  rw [run_get_bind, k.processes.running?_eq_none_iff.mpr hp]
  rfl

/-- The files of a process that ends are closed, then the host is told. -/
theorem leads_terminate_of_running {p : UserProcess η} (status : Int32) {freed : List PhysAddr}
    {frames : FrameLedger} (hp : k.processes.running? pid = some p)
    (hrelease : k.frames.releaseAll pid = .ok (freed, frames)) :
    (terminate pid status).Leads k (.exit status)
      ⟨frames, k.processes.modify pid (·.exit status),
        (p.files.files.map (·.2)).foldl FileSystem.close k.files, k.console,
        Host.exited k.host pid status⟩
      (p.files.files.map (.close ·.2) ++ [.exited pid status]) := by
  have hclose := run_closeAll (p.files.files.map (·.2))
    { k with processes := k.processes.modify pid (·.exit status), frames }
  unfold terminate Leads
  rw [run_get_bind, hp]
  simp only [run] at hclose
  simp only [run, bind, setProcesses, KernelM.modify, ofChecked, hrelease, Except.map, setFrames,
    notices, notice, emit, hclose, Scheduler.exited, device, pure]
  exact ⟨_, rfl, by simp [Function.comp_def]⟩

-- What it means that a process has ended with a status, and how the devices were used for it: if
-- it was running its files were closed and the host was told; if it was not, nothing has happened.
inductive Ends (k : Kernel φ η χ ω) (pid : Pid) (status : Int32) :
    Kernel φ η χ ω → List (DeviceUse η) → Prop
  | dead (hp : k.processes.running? pid = none) : Ends k pid status k []
  | ended {p : UserProcess η} {frames : FrameLedger} (hp : k.processes.running? pid = some p)
      (hpages : ∀ f, frames.pool.page? f = k.frames.pool.page? f) :
      Ends k pid status
        ⟨frames, k.processes.modify pid (·.exit status),
          (p.files.files.map (·.2)).foldl FileSystem.close k.files, k.console,
          Host.exited k.host pid status⟩
        (p.files.files.map (.close ·.2) ++ [.exited pid status])

/-- To end a process always succeeds. -/
theorem leads_terminate (h : Coherent k es) (pid : Pid) (status : Int32) :
    ∃ k' uses, (terminate pid status).Leads k (.exit status) k' uses ∧
      Ends k pid status k' uses := by
  cases hp : k.processes.running? pid with
  | none =>
    have hrun := run_terminate_of_not_running status (k.processes.running?_eq_none_iff.mp hp)
    exact ⟨k, [], ⟨_, hrun, rfl⟩, .dead hp⟩
  | some p =>
    obtain ⟨frames, hrelease, _, _, _, hpages⟩ := h.keeps.releaseAll pid
    exact ⟨_, _, leads_terminate_of_running status hp hrelease, .ended hp hpages.page_eq⟩

/-- Whoever exits keeps neither page nor frame; to end a process again changes nothing. -/
theorem terminate_cases (h : Coherent k es) (pid : Pid) (status : Int32) :
    ∃ k' events es', (terminate pid status).run k = .ok (.exit status, k', events) ∧
      k'.frames.Keeps es' ∧ (∀ f, k'.frames.pool.page? f = k.frames.pool.page? f) ∧
      (k.processes.state? pid ≠ some .running ∧ k' = k ∧ es' = es ∨
        k.processes.state? pid = some .running ∧
          Resets k k' es es' pid (some (.exited status))) := by
  by_cases hp : k.processes.state? pid = some .running
  · obtain ⟨p, hrunning⟩ := Option.isSome_iff_exists.mp (k.processes.running?_isSome_iff.mpr hp)
    obtain ⟨l', hrelease, hk, _, _, hpages⟩ := h.keeps.releaseAll pid
    obtain ⟨events, hrun, _⟩ := leads_terminate_of_running status hrunning hrelease
    have hstate : ∀ q, (k.processes.modify pid (·.exit status)).state? q =
        if q = pid then some (.exited status) else k.processes.state? q := by
      intro q
      rw [Processes.state?_exit]
      split
      · rename_i hq
        rw [hq, hp]
        rfl
      · rfl
    exact ⟨_, events, _, hrun, hk, hpages.page_eq, .inr ⟨hp, Nat.le_refl _,
      fun _ => h.numbered pid _ hp, hstate, fun _ _ => Processes.mapping?_exit status,
      fun _ _ => lends_dismiss⟩⟩
  · exact ⟨k, _, es, run_terminate_of_not_running status hp, h.keeps, fun _ => rfl,
      .inl ⟨hp, rfl, rfl⟩⟩

end Files

/-! ## Sharing -/

theorem of_run_shareFrame (h : k.frames.Keeps es) {holder : Holder} {frame : PhysAddr}
    {events : List (Event η)}
    (hrun : (shareFrame frame holder).run k = .ok (.ok (), k', events)) :
    ∃ es', k'.frames.Keeps es' ∧ k'.processes = k.processes ∧
      ∀ f g, Lends es' f g ↔ Lends es f g ∨ f = frame ∧ g = holder := by
  unfold shareFrame at hrun
  rw [run_get_bind] at hrun
  obtain ⟨answer, _, _, _, hanswer, hrun, _⟩ := run_bind_eq_ok.mp hrun
  obtain ⟨_, _, _, _, hnotice, hrun, _⟩ := run_bind_eq_ok.mp hrun
  cases hnotice
  rcases h.share frame holder with ⟨hs, _⟩ | ⟨hs, _⟩ |
    ⟨xs, slot, loan, ys, loans', rfl, rfl, _, hs, hk⟩
  · rw [hs] at hanswer
    cases hanswer
    cases hrun
  · rw [hs] at hanswer
    cases hanswer
    cases hrun
  · rw [hs] at hanswer
    cases hanswer
    cases hrun
    exact ⟨_, hk, rfl, fun _ _ => lends_join⟩

theorem of_run_mapFrame {frame : PhysAddr} {events : List (Event η)}
    (hrun : (mapFrame pid va frame writable).run k = .ok (.ok (), k', events)) :
    k'.frames = k.frames ∧ k.processes.Maps k'.processes ⟨pid, va⟩ frame writable := by
  unfold mapFrame at hrun
  rw [run_get_bind] at hrun
  cases hget : k.processes.get? pid with
  | none =>
    rw [hget] at hrun
    cases hrun
  | some p =>
    rw [hget] at hrun
    cases hm : p.pageTable.map va frame writable with
    | error error =>
      simp only [hm] at hrun
      cases hrun
    | ok table =>
      simp only [hm] at hrun
      cases hrun
      exact ⟨rfl, Processes.maps_setTable hget hm⟩

/-- After both steps of sharing the process has gained a page. -/
theorem of_run_share (h : k.frames.Keeps es) {middle : Kernel φ η χ ω} {frame : PhysAddr}
    {before after : List (Event η)} (hp : k.processes.state? pid = some .running)
    (hshare : (shareFrame frame ⟨pid, va⟩).run k = .ok (.ok (), middle, before))
    (hmap : (mapFrame pid va frame writable).run middle = .ok (.ok (), k', after)) :
    ∃ es', k'.frames.Keeps es' ∧ Gains k k' es es' ⟨pid, va⟩ frame writable := by
  obtain ⟨es', hk, hps, hl⟩ := of_run_shareFrame h hshare
  obtain ⟨hframes, hmaps⟩ := of_run_mapFrame hmap
  rw [hps] at hmaps
  rw [← hframes] at hk
  exact ⟨es', hk, hmaps, hp, hl⟩

end TeachingKernel.Kernel
