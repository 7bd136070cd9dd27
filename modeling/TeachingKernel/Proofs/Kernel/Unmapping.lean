import TeachingKernel.Proofs.Kernel.Exits

/-!
# What unmapping gives back

A page table takes a page out by any address in it. The ledger takes a holder off a frame by the
very address at which it holds it, which is the start of a page. So a page that is named by its
start goes together with its frame. A page that is named by another of its addresses goes alone: the
process is told that it does not hold the frame, and goes on holding it without a page.
-/

namespace TeachingKernel.Kernel

open KernelM FrameLedger

variable {φ η χ ω : Type} {k k' : Kernel φ η χ ω} {es es' : List (Nat × Loan)} {pid : Pid}
  {va : VirtAddr}

/-! ## Frames are held at the start of pages -/

/-- Every holder holds its frame at the start of a page. -/
def HeldAtStarts (es : List (Nat × Loan)) : Prop :=
  ∀ f g, Lends es f g → g.vaddr.isAligned = true

theorem Alters.heldAtStarts {named : Prop} (ha : Alters k k' es es' named) (h : HeldAtStarts es) :
    HeldAtStarts es' := by
  intro f g hl
  cases ha with
  | same hs => exact h f g ((hs.lends f g).mp hl)
  | gains hg =>
    rcases (hg.lends f g).mp hl with hl | ⟨_, rfl⟩
    · exact h f g hl
    · exact hg.maps.isAligned
  | loses hloses _ => exact h f g ((hloses.lends f g).mp hl).1
  | resets hr => exact h f g ((hr.lends f g).mp hl).1

/-! ## One step -/

/-- A page that is taken out was there, and the ledger is told to let go of its frame. -/
theorem of_run_unmapPage (h : k.frames.Keeps es) {release : Release} {events : List (Event η)}
    (hrun : (unmapPage pid va).run k = .ok (.ok release, k', events)) :
    ∃ frame es', k.frames.releaseMapping ⟨pid, va⟩ frame = .ok (release, k'.frames) ∧
      k'.frames.Keeps es' ∧ Loses k k' es es' ⟨pid, va⟩ frame := by
  unfold unmapPage at hrun
  rw [run_get_bind] at hrun
  cases hget : k.processes.get? pid with
  | none =>
    rw [hget] at hrun
    cases hrun
  | some p =>
    simp only [hget] at hrun
    cases hm : p.pageTable.unmap va with
    | error error =>
      rw [hm] at hrun
      cases hrun
    | ok found =>
      obtain ⟨frame, table⟩ := found
      rw [hm] at hrun
      obtain ⟨_, l', es', hl, hk, hlends, _⟩ := h.releaseMapping ⟨pid, va⟩ frame
      obtain ⟨_, _, _, _, hset, hrun, _⟩ := run_bind_eq_ok.mp hrun
      cases hset
      obtain ⟨_, _, _, _, hrelease, hrun, _⟩ := run_bind_eq_ok.mp hrun
      cases (run_releaseMapping
        (k := { k with processes := k.processes.modify pid ({ · with pageTable := table }) })
        hl).symm.trans hrelease
      cases hrun
      exact ⟨frame, es', hl, hk, Processes.unmaps_setTable hget hm, hlends⟩

/-- What is held by the very address is given back: the frame goes to the pool, unless somebody else
holds it. -/
theorem Loses.gives_back (h : k.frames.Keeps es) (hk : k'.frames.Keeps es') {frame : PhysAddr}
    {release : Release} (hloses : Loses k k' es es' ⟨pid, va⟩ frame)
    (hheld : Lends es frame ⟨pid, va⟩)
    (hrelease : k.frames.releaseMapping ⟨pid, va⟩ frame = .ok (release, k'.frames)) :
    (∀ f, ¬ Lends es' f ⟨pid, va⟩) ∧
      (release = .freed ∧ k'.frames.pool.inUse frame = false ∨
        ∃ n, release = .shared n ∧ ∃ g, Lends es' frame g) := by
  constructor
  · intro f hl
    obtain ⟨hl, hne⟩ := (hloses.lends f _).mp hl
    exact hne ⟨h.frame_eq_of_lends hheld hl, rfl⟩
  · rcases h.releaseMapping_answer hheld hrelease with
      ⟨hn, _⟩ | ⟨_, ⟨hfreed, hall⟩ | ⟨n, hshared, g, hne, hg⟩⟩
    · exact absurd hheld hn
    · left
      refine ⟨hfreed, Bool.eq_false_iff.mpr fun huse => ?_⟩
      obtain ⟨g, hg⟩ := hk.inUse_iff_lends.mp huse
      rw [h.pageStart_of_lends hheld] at hg
      obtain ⟨hg, hne⟩ := (hloses.lends frame g).mp hg
      exact hne ⟨rfl, hall g hg⟩
    · exact .inr ⟨n, hshared, g, (hloses.lends frame g).mpr ⟨hg, fun hc => hne hc.2⟩⟩

/-- What is held by another address stays as it is. -/
theorem Loses.holds_on (h : k.frames.Keeps es) {frame : PhysAddr} {release : Release} {g : Holder}
    (hloses : Loses k k' es es' ⟨pid, va⟩ frame) (hheld : Lends es frame g)
    (hother : ¬ Lends es frame ⟨pid, va⟩)
    (hrelease : k.frames.releaseMapping ⟨pid, va⟩ frame = .ok (release, k'.frames)) :
    release = .notReferenced ∧ k'.frames = k.frames ∧ Lends es' frame g := by
  rcases h.releaseMapping_answer hheld hrelease with ⟨_, hrefused, hsame⟩ | ⟨hl, _⟩
  · refine ⟨hrefused, hsame, (hloses.lends frame g).mpr ⟨hheld, ?_⟩⟩
    rintro ⟨_, rfl⟩
    exact hother hheld
  · exact absurd hl hother

variable [FileSystem φ η] [Console χ] [Host ω]

theorem Coherent.run_heldAtStarts (h : Coherent k es) (hs : HeldAtStarts es)
    {changes : List Change} (hr : Run k changes k') :
    ∃ es', Coherent k' es' ∧ HeldAtStarts es' := by
  induction hr generalizing es with
  | nil => exact ⟨es, h, hs⟩
  | cons hc _ ih =>
    obtain ⟨es₁, hk, ha⟩ := h.alters_of_happens hc
    exact ih (ha.coherent h hk) (ha.heldAtStarts hs)

/-- What comes of it when a page is taken out by an address in it. The page is gone. If the address
is the start of the page, the process does not hold the frame any more, the frame went back to the
pool unless somebody else holds it, and every frame that is in use is held by somebody else. If it
is another address, the process is told that it did not hold the frame, and no frame changes hands:
the process goes on holding the frame that was behind the page. -/
theorem unmapPage_gives_back (config : Config) (files : φ) (console : χ) (host : ω)
    (hfits : poolBase + config.frames * pageSize ≤ addressBound) {changes : List Change}
    (hr : Run (boot config files console host).1 changes k) {pid : Pid} {va : VirtAddr}
    {release : Release} {k' : Kernel φ η χ ω} {events : List (Event η)}
    (hrun : (unmapPage pid va).run k = .ok (.ok release, k', events)) :
    ∃ es' frame writable, k'.frames.loans.entries = .ok es' ∧
      k.processes.mapping? pid va = some (frame, writable) ∧
      k'.processes.mapping? pid va = none ∧
      (va.isAligned = true →
        (∀ f, ¬ Lends es' f ⟨pid, va.pageStart⟩) ∧
        (release = .freed ∧ k'.frames.pool.inUse frame = false ∨
          ∃ n, release = .shared n ∧ ∃ g, Lends es' frame g) ∧
        ∀ f, k'.frames.pool.inUse f = true →
          ∃ g, g ≠ ⟨pid, va.pageStart⟩ ∧ Lends es' f.pageStart g) ∧
      (va.isAligned = false →
        release = .notReferenced ∧ k'.frames = k.frames ∧
        Lends es' frame ⟨pid, va.pageStart⟩ ∧ k'.frames.pool.inUse frame = true) := by
  have hboot : Coherent (boot config files console host : Kernel φ η χ ω × List (Event η)).1 [] :=
    coherent_boot config files console host hfits
  obtain ⟨es, h, hs⟩ := hboot.run_heldAtStarts (fun _ _ hl => absurd hl not_lends_nil) hr
  obtain ⟨frame, es', hrelease, hk', hloses⟩ := of_run_unmapPage h.keeps hrun
  obtain ⟨writable, hmapped⟩ := hloses.unmaps.mapped
  have hheld : Lends es frame ⟨pid, va.pageStart⟩ := h.backed pid va frame writable hmapped
  refine ⟨es', frame, writable, hk'.ring.entries, hmapped, ?_, fun ha => ?_, fun ha => ?_⟩
  · rw [hloses.unmaps.mapping_eq, if_pos ⟨rfl, rfl⟩]
  · rw [Address.pageStart_of_isAligned ha] at hheld ⊢
    obtain ⟨hgone, hback⟩ := hloses.gives_back h.keeps hk' hheld hrelease
    refine ⟨hgone, hback, fun f hf => ?_⟩
    obtain ⟨g, hg⟩ := hk'.inUse_iff_lends.mp hf
    exact ⟨g, fun hc => hgone _ (hc ▸ hg), hg⟩
  · have hother : ¬ Lends es frame ⟨pid, va⟩ := by
      intro hl
      rw [hs frame _ hl] at ha
      contradiction
    obtain ⟨hrefused, hsame, hstill⟩ := hloses.holds_on h.keeps hheld hother hrelease
    exact ⟨hrefused, hsame, hstill, hk'.inUse_of_lends hstill⟩

/-- Two pages are mapped. The first is taken out by its second byte, and the process goes on holding
the frame behind it. The second is taken out by its start, and the frame behind it goes back. -/
theorem unmapPage_gives_back_of_two_pages :
    poolBase + 2 * pageSize ≤ addressBound ∧
      ∃ (k middle k' : Kernel MemoryFileSystem FileHandle BufferConsole ScriptedHost)
        (es es' : List (Nat × Loan)) (first second : PhysAddr),
        Run (boot ⟨2, .clock⟩ {} {} {}).1
          [.operation (.spawn "init"), .operation (.mapPage ⟨1⟩ (.ofNat 0x1000) true),
            .operation (.mapPage ⟨1⟩ (.ofNat 0x2000) true)] k ∧
        (∃ events, (unmapPage ⟨1⟩ (.ofNat 0x1001)).run k =
          .ok (.ok .notReferenced, middle, events)) ∧
        middle.frames.loans.entries = .ok es ∧
        middle.processes.mapping? ⟨1⟩ (.ofNat 0x1001) = none ∧
        Lends es first ⟨⟨1⟩, .ofNat 0x1000⟩ ∧ middle.frames.pool.inUse first = true ∧
        middle.processes.mapping? ⟨1⟩ (.ofNat 0x2000) = some (second, true) ∧
        (∃ events, (unmapPage ⟨1⟩ (.ofNat 0x2000)).run middle = .ok (.ok .freed, k', events)) ∧
        k'.frames.loans.entries = .ok es' ∧
        (∀ frame, ¬ Lends es' frame ⟨⟨1⟩, .ofNat 0x2000⟩) ∧
        k'.frames.pool.inUse second = false := by
  have hfits : poolBase + 2 * pageSize ≤ addressBound := by decide
  -- the answers of the whole run, computed at once
  have hanswers : ((do
      let _ ← (Operation.spawn "init").perform
      let _ ← (Operation.mapPage ⟨1⟩ (.ofNat 0x1000) true).perform
      let _ ← (Operation.mapPage ⟨1⟩ (.ofNat 0x2000) true).perform
      let first ← unmapPage ⟨1⟩ (.ofNat 0x1001)
      let k ← get
      let second ← unmapPage ⟨1⟩ (.ofNat 0x2000)
      return (first, k.processes.mapping? ⟨1⟩ (.ofNat 0x2000), second) :
        KernelM MemoryFileSystem FileHandle BufferConsole ScriptedHost _).run
      (boot ⟨2, .clock⟩ {} {} {}).1).map Prod.fst =
        .ok (.ok .notReferenced, some (.ofNat (poolBase + pageSize), true), .ok .freed) := by
    decide +kernel
  obtain ⟨k, _, hrun⟩ := exists_run_eq hanswers
  obtain ⟨_, _, _, _, hspawn, hrun, _⟩ := run_bind_eq_ok.mp hrun
  obtain ⟨_, _, _, _, hmap₁, hrun, _⟩ := run_bind_eq_ok.mp hrun
  obtain ⟨_, before, _, _, hmap₂, hrun, _⟩ := run_bind_eq_ok.mp hrun
  obtain ⟨_, middle, _, _, hfirst, hrun, _⟩ := run_bind_eq_ok.mp hrun
  rw [run_get_bind] at hrun
  obtain ⟨_, last, _, _, hsecond, hrun, _⟩ := run_bind_eq_ok.mp hrun
  simp only [run_pure, Except.ok.injEq, Prod.mk.injEq] at hrun
  obtain ⟨⟨rfl, hmapped, rfl⟩, rfl, _⟩ := hrun
  have hr : Run _ _ before :=
    .cons (.operation hspawn) (.cons (.operation hmap₁) (.cons (.operation hmap₂) (.nil _)))
  have hunmap : Change.Happens (.operation (.unmapPage ⟨1⟩ (.ofNat 0x1001))) before middle :=
    .operation hfirst
  have hr' : Run _ _ middle :=
    .cons (.operation hspawn) (.cons (.operation hmap₁) (.cons (.operation hmap₂)
      (.cons hunmap (.nil _))))
  obtain ⟨es, first, _, hes, _, hgone, _, hstays⟩ :=
    unmapPage_gives_back ⟨2, .clock⟩ _ _ _ hfits hr hfirst
  obtain ⟨es', second, writable, hes', hmapped', _, hback, _⟩ :=
    unmapPage_gives_back ⟨2, .clock⟩ _ _ _ hfits hr' hsecond
  obtain ⟨_, _, hheld, huse⟩ := hstays (by decide)
  obtain ⟨hfree, hreturned, _⟩ := hback (by decide)
  obtain ⟨rfl, rfl⟩ := Prod.mk.inj (Option.some.inj (hmapped.symm.trans hmapped'))
  refine ⟨hfits, before, middle, last, es, es', first, _, hr, ⟨_, hfirst⟩, hes, hgone, hheld, huse,
    hmapped, ⟨_, hsecond⟩, hes', hfree, ?_⟩
  rcases hreturned with ⟨_, hreturned⟩ | ⟨_, hshared, _⟩
  · exact hreturned
  · cases hshared

end TeachingKernel.Kernel
