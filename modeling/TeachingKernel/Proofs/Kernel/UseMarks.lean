import TeachingKernel.Proofs.Kernel.Exits
import TeachingKernel.Proofs.Ledger.Circle

/-!
# Who sets the marks of use, and who clears them

A page table entry is marked by a use of its page and by nothing else. Accessed marks are cleared by
the hand of the ledger alone, and the hand goes around only when a frame is asked for and there is
none left. Whatever else is asked of the kernel leaves every entry as it is, or takes it out, or
enters a fresh one. This holds of every kernel, however it came about.
-/

namespace TeachingKernel

/-! ## The entries of all processes -/

namespace Processes

variable {η : Type} {ps ps' ps'' : Processes η} {pid q : Pid} {va x : VirtAddr}

def entryAt? (ps : Processes η) (pid : Pid) (va : VirtAddr) : Option PageEntry :=
  (ps.get? pid).bind (·.pageTable.entryAt? va)

theorem entryAt?_of_get? {p : UserProcess η} (h : ps.get? pid = some p) (va : VirtAddr) :
    ps.entryAt? pid va = p.pageTable.entryAt? va := by
  rw [entryAt?, h, Option.bind_some]

/-- The entries after a change of one process. -/
theorem entryAt?_modify (ps : Processes η) (pid : Pid) (f : UserProcess η → UserProcess η) :
    (ps.modify pid f).entryAt? q x =
      if q = pid then (ps.get? q).bind (fun p => (f p).pageTable.entryAt? x)
      else ps.entryAt? q x := by
  rw [entryAt?, get?_modify]
  split
  · rw [Option.bind_map]
    rfl
  · rfl

/-- The entries after a change of one page. -/
theorem entryAt?_modifyPage (ps : Processes η) (pid : Pid) (va : VirtAddr)
    (f : PageEntry → PageEntry) :
    (ps.modify pid fun p => { p with pageTable := p.pageTable.modify va f }).entryAt? q x =
      if q = pid ∧ x.pageNumber = va.pageNumber then (ps.entryAt? q x).map f
      else ps.entryAt? q x := by
  rw [entryAt?_modify, entryAt?]
  cases ps.get? q with
  | none => simp
  | some p => by_cases hq : q = pid <;> simp [hq]

/-- The entry before or after its accessed mark was cleared. -/
theorem entryAt?_clearAccessed (ps : Processes η) (h : Holder) :
    (UseBits.clearAccessed ps h).entryAt? q x = ps.entryAt? q x ∨
      (UseBits.clearAccessed ps h).entryAt? q x = (ps.entryAt? q x).map PageEntry.cooled := by
  have hmodify : (UseBits.clearAccessed ps h).entryAt? q x = _ :=
    entryAt?_modifyPage ps h.pid h.vaddr PageEntry.cooled
  rw [hmodify]
  split
  · exact .inr rfl
  · exact .inl rfl

/-- The same for any number of marks. -/
theorem entryAt?_of_cleared (h : Cleared ps ps') :
    ps'.entryAt? q x = ps.entryAt? q x ∨
      ps'.entryAt? q x = (ps.entryAt? q x).map PageEntry.cooled := by
  obtain ⟨holders, rfl⟩ := h
  induction holders generalizing ps with
  | nil => exact .inl rfl
  | cons holder holders ih =>
    rw [List.foldl_cons]
    rcases ps.entryAt?_clearAccessed holder with hfirst | hfirst
    · rw [← hfirst]
      exact ih
    · right
      rcases @ih (UseBits.clearAccessed ps holder) with hrest | hrest
      · rw [hrest, hfirst]
      · -- to clear a mark twice is to clear it
        rw [hrest, hfirst, Option.map_map]
        rfl

/-- No entry is new and none has changed. -/
def Thins (ps ps' : Processes η) : Prop :=
  ∀ q x e, ps'.entryAt? q x = some e → ps.entryAt? q x = some e

theorem Thins.refl (ps : Processes η) : ps.Thins ps := fun _ _ _ h => h

theorem Thins.trans (h : ps.Thins ps') (h' : ps'.Thins ps'') : ps.Thins ps'' :=
  fun q x e he => h q x e (h' q x e he)

theorem thins_modify (pid : Pid) {f : UserProcess η → UserProcess η}
    (hf : ∀ p, ps.get? pid = some p → ∀ x e, (f p).pageTable.entryAt? x = some e →
      p.pageTable.entryAt? x = some e) : ps.Thins (ps.modify pid f) := by
  intro q x e he
  rw [entryAt?_modify] at he
  split at he
  · rename_i hq
    subst hq
    obtain ⟨p, hp, hentry⟩ := Option.bind_eq_some_iff.mp he
    rw [entryAt?_of_get? hp]
    exact hf p hp x e hentry
  · exact he

/-- A new process has no entry. -/
theorem thins_spawn {name : String} (h : ps.spawn name = .ok (pid, ps')) : ps.Thins ps' := by
  intro q x e he
  rw [entryAt?, (of_spawn_eq_ok h).2.2] at he
  split at he
  · cases he
  · exact he

end Processes

/-! ## What the hand clears -/

namespace FrameLedger

variable {σ : Type} [UseBits σ] {bits bits' : σ} {l l' : FrameLedger}

theorem cleared_scan {policy : Policy} {epoch count slot : Nat} {fallback found : Option Nat}
    {loans loans' : CircularList Loan}
    (h : scan policy epoch count slot fallback loans bits = .ok (found, loans', bits')) :
    Cleared bits bits' := by
  induction count generalizing slot fallback loans bits with
  | zero =>
    cases h
    exact .refl _
  | succ count ih =>
    obtain ⟨node, -, h⟩ := Checked.bind_eq_ok.mp h
    have hfirst := (cleared_takeAccessed node.value.holders bits).1
    split at h
    rename_i isHot bits₁ htaken
    rw [htaken] at hfirst
    split at h
    · obtain ⟨loans₁, -, h⟩ := Checked.bind_eq_ok.mp h
      exact hfirst.trans (ih h)
    · split at h
      · exact hfirst.trans (ih h)
      · split at h
        · cases h
          exact hfirst
        · exact hfirst.trans (ih h)

theorem cleared_pickVictim {victim : Option PhysAddr}
    (h : l.pickVictim bits = .ok (victim, l', bits')) : Cleared bits bits' := by
  unfold pickVictim at h
  split at h
  · cases h
    exact .refl bits
  · obtain ⟨⟨found, loans, bits₁⟩, hscan, h⟩ := Checked.bind_eq_ok.mp h
    obtain ⟨loans₁, -, h⟩ := Checked.bind_eq_ok.mp h
    obtain ⟨node, -, h⟩ := Checked.bind_eq_ok.mp h
    cases h
    exact cleared_scan hscan

/-- Marks are cleared only where there is no frame to lend. -/
theorem cleared_lend {holder : Holder} {answer : Except FrameError PhysAddr}
    (h : l.lend holder bits = .ok (answer, l', bits')) :
    bits' = bits ∨ Cleared bits bits' ∧ ∃ victim, answer = .error (.outOfFrames victim) := by
  obtain ⟨held, -, h⟩ := Checked.bind_eq_ok.mp h
  split at h
  · cases h
    exact .inl rfl
  · split at h
    · obtain ⟨entered, -, h⟩ := Checked.bind_eq_ok.mp h
      cases h
      exact .inl rfl
    · obtain ⟨⟨victim, l₁, bits₁⟩, hpick, h⟩ := Checked.bind_eq_ok.mp h
      cases h
      exact .inr ⟨cleared_pickVictim hpick, victim, rfl⟩

end FrameLedger

/-! ## Steps that mark nothing -/

namespace Kernel

open KernelM

variable {φ η χ ω : Type} {k k' : Kernel φ η χ ω} {pid : Pid} {events : List (Event η)}

def Thins (k k' : Kernel φ η χ ω) : Prop := k.processes.Thins k'.processes

instance : Indifferent (Thins : Kernel φ η χ ω → Kernel φ η χ ω → Prop) where
  refl _ := .refl _
  trans _ _ _ := Processes.Thins.trans
  setDevices _ _ _ _ := .refl _

instance (pid : Pid) : Allows (Thins : Kernel φ η χ ω → Kernel φ η χ ω → Prop) pid where
  setPool _ _ _ _ _ _ _ _ := .refl _
  setDescriptors _ _ := Processes.thins_modify pid fun _ _ _ _ h => h

theorem within_thins_spawn (name : String) : Within Thins k (spawn name) := by
  apply within_get_bind
  apply within_ofChecked_bind
  rintro ⟨pid, processes⟩ hs
  exact within_bind (within_modify (Processes.thins_spawn hs)) fun _ _ =>
    within_bind (within_notice _) fun _ _ => within_pure _

theorem within_thins_unmapPage (pid : Pid) (va : VirtAddr) : Within Thins k (unmapPage pid va) := by
  apply within_get_bind
  cases hp : k.processes.get? pid with
  | none => exact within_pure _
  | some p =>
    cases hm : p.pageTable.unmap va with
    | error error =>
      simp only [hm]
      exact within_pure _
    | ok found =>
      obtain ⟨frame, table⟩ := found
      simp only [hm]
      have hthins :
          k.processes.Thins (k.processes.modify pid ({ · with pageTable := table })) := by
        refine Processes.thins_modify pid fun p' hp' x e he => ?_
        cases hp.symm.trans hp'
        rw [PageTable.entryAt?_of_unmap hm] at he
        split at he
        · cases he
        · exact he
      exact within_bind (within_modify hthins) fun _ _ =>
        within_bind (within_releaseMapping (fun _ _ => .refl _) _ _) fun _ _ => within_pure _

/-- A process that ends keeps no entry. -/
theorem thins_terminate [FileSystem φ η] [Host ω] {status : Int32} {verdict : Verdict}
    (hrun : (terminate pid status).run k = .ok (verdict, k', events)) : Thins k k' := by
  by_cases hp : k.processes.state? pid = some .running
  · obtain ⟨p, hrunning⟩ := Option.isSome_iff_exists.mp (k.processes.running?_isSome_iff.mpr hp)
    obtain ⟨frames, -, rfl, -⟩ := of_run_terminate hrunning hrun
    exact Processes.thins_modify pid fun _ _ x e he => by
      rw [UserProcess.exit, PageTable.entryAt?_empty] at he
      cases he
  · cases (run_terminate_of_not_running status hp).symm.trans hrun
    exact .refl _

/-! ## One operation -/

/-- A frame was asked for and there was none left. -/
def Operation.RunsOut : (op : Operation) → op.Answer → Prop
  | mapPage .., answer => ∃ victim, answer = Except.error (.frame (.outOfFrames victim))
  | _, _ => False

inductive Operation.Leaves (op : Operation) (answer : op.Answer) :
    Option PageEntry → Option PageEntry → Prop
  | same (entry : Option PageEntry) : Leaves op answer entry entry
  | gone (e : PageEntry) : Leaves op answer (some e) none
  | cooled (e : PageEntry) (h : op.RunsOut answer) : Leaves op answer (some e) (some e.cooled)
  | fresh (frame : PhysAddr) (writable : Bool) :
      Leaves op answer none (some ⟨frame, .fresh writable⟩)

section Leaves

variable {op : Operation} {answer : op.Answer}

theorem Thins.leaves (h : Thins k k') (q : Pid) (x : VirtAddr) :
    op.Leaves answer (k.processes.entryAt? q x) (k'.processes.entryAt? q x) := by
  cases hafter : k'.processes.entryAt? q x with
  | none =>
    cases k.processes.entryAt? q x with
    | none => exact .same none
    | some e => exact .gone e
  | some e =>
    rw [h q x e hafter]
    exact .same (some e)

/-- Marks were cleared because the frames ran out. -/
theorem leaves_of_cleared (h : Cleared k.processes k'.processes) (hout : op.RunsOut answer)
    (q : Pid) (x : VirtAddr) :
    op.Leaves answer (k.processes.entryAt? q x) (k'.processes.entryAt? q x) := by
  rcases Processes.entryAt?_of_cleared h (q := q) (x := x) with heq | heq
  · rw [heq]
    exact .same _
  · rw [heq]
    cases k.processes.entryAt? q x with
    | none => exact .same none
    | some e => exact .cooled e hout

end Leaves

theorem of_run_lendFrame {holder : Holder} {answer : Except FrameError PhysAddr}
    (hrun : (lendFrame holder).run k = .ok (answer, k', events)) :
    ∃ frames processes, k.frames.lend holder k.processes = .ok (answer, frames, processes) ∧
      k' = { k with frames, processes } := by
  cases hlend : k.frames.lend holder k.processes with
  | error d =>
    unfold lendFrame at hrun
    rw [run_get_bind] at hrun
    obtain ⟨_, _, _, _, hchecked, _⟩ := run_bind_eq_ok.mp hrun
    rw [hlend] at hchecked
    contradiction
  | ok found =>
    cases (run_lendFrame hlend).symm.trans hrun
    exact ⟨_, _, rfl, rfl⟩

/-- A page that gets a frame gets a fresh entry. -/
theorem leaves_backPage {op : Operation} {opAnswer : op.Answer} {va : VirtAddr} {writable : Bool}
    {frame : PhysAddr} {answer : Except KernelError PhysAddr}
    (hrun : (backPage pid va writable (.ok frame)).run k = .ok (answer, k', events)) (q : Pid)
    (x : VirtAddr) :
    op.Leaves opAnswer (k.processes.entryAt? q x) (k'.processes.entryAt? q x) := by
  unfold backPage at hrun
  rw [run_get_bind] at hrun
  cases hp : k.processes.get? pid with
  | none =>
    rw [hp] at hrun
    cases hrun
    exact .same _
  | some p =>
    simp only [hp] at hrun
    cases hm : p.pageTable.map va frame writable with
    | error error =>
      rw [hm] at hrun
      have hthins : Within Thins k (do
          let _ ← releaseMapping ⟨pid, va⟩ frame
          return Except.error (.mapping error) : KernelM φ η χ ω (Except KernelError PhysAddr)) :=
        within_bind (within_releaseMapping (fun _ _ => .refl _) _ _) fun _ _ => within_pure _
      exact (hthins hrun).1.leaves q x
    | ok table =>
      rw [hm] at hrun
      cases hrun
      rw [Processes.entryAt?_modify]
      split
      · rename_i hq
        subst hq
        rw [hp, Option.bind_some, PageTable.entryAt?_of_map hm, Processes.entryAt?_of_get? hp]
        split
        · rename_i hx
          have hnone : p.pageTable.entryAt? x = none := by
            have := (PageTable.of_map_eq_ok hm).2.2.2
            rw [← p.pageTable.mapping?_congr hx, PageTable.mapping?] at this
            exact Option.map_eq_none_iff.mp this
          rw [hnone]
          exact .fresh frame writable
        · exact .same _
      · exact .same _

/-- To ask for a page clears marks if the frames have run out. -/
theorem leaves_mapPage {va : VirtAddr} {writable : Bool} {answer : Except KernelError PhysAddr}
    (hrun : (mapPage pid va writable).run k = .ok (answer, k', events)) (q : Pid) (x : VirtAddr) :
    (Operation.mapPage pid va writable).Leaves answer (k.processes.entryAt? q x)
      (k'.processes.entryAt? q x) := by
  by_cases hp : k.processes.state? pid = some .running
  · rw [run_mapPage_of_running hp] at hrun
    obtain ⟨lent, middle, _, _, hlend, hback, -⟩ := run_bind_eq_ok.mp hrun
    obtain ⟨frames, processes, hl, rfl⟩ := of_run_lendFrame hlend
    rcases FrameLedger.cleared_lend hl with rfl | ⟨hcleared, victim, rfl⟩
    · cases lent with
      | error error =>
        cases hback
        exact .same _
      | ok frame => exact leaves_backPage hback q x
    · cases hback
      have hout : (Operation.mapPage pid va writable).RunsOut
          (Except.error (.frame (.outOfFrames victim))) := ⟨victim, rfl⟩
      exact leaves_of_cleared hcleared hout q x
  · cases (run_mapPage_of_not_running hp).symm.trans hrun
    exact .same _

variable [FileSystem φ η] [Console χ] [Host ω]

/-- Every operation but a use leaves every entry as it is, or takes it out, or clears its accessed
mark because the frames have run out, or enters a fresh one. -/
theorem leaves_of_perform {op : Operation} {answer : op.Answer}
    (hop : ∀ pid va write, op ≠ .touch pid va write)
    (hrun : op.perform.run k = .ok (answer, k', events)) (q : Pid) (x : VirtAddr) :
    op.Leaves answer (k.processes.entryAt? q x) (k'.processes.entryAt? q x) := by
  cases op with
  | spawn name => exact (within_thins_spawn name hrun).1.leaves q x
  | mapPage pid va writable => exact leaves_mapPage hrun q x
  | unmapPage pid va => exact (within_thins_unmapPage pid va hrun).1.leaves q x
  | copyTo pid va bytes =>
    have h : Thins k k' := (within_copyTo pid va bytes hrun).1
    exact h.leaves q x
  | copyFrom pid va dst =>
    have h : Thins k k' := (within_copyFrom pid va dst hrun).1
    exact h.leaves q x
  | touch pid va write => exact absurd rfl (hop pid va write)
  | tick ticks =>
    cases hrun
    exact .same _
  | terminate pid status => exact (thins_terminate hrun).leaves q x
  | trap pid registers =>
    rcases trap_cases (R := Thins) pid hrun with
      ⟨_, hthins, _⟩ | ⟨middle, _, _, _, hthins, _, _, hterm⟩
    · exact hthins.leaves q x
    · have h : Thins k k' := Processes.Thins.trans hthins (thins_terminate hterm)
      exact h.leaves q x

/-- Marks are set by uses and cleared by the hand. Whatever else is asked of the kernel, an entry
that stays keeps its frame, its writable flag and its dirty mark; its accessed mark is not set, and
it is cleared only where a frame was asked for and there was none. A new entry has no mark. And a
use changes nothing in the kernel but the marks of its page. -/
theorem marks_set_by_use_alone (k : Kernel φ η χ ω) :
    (∀ (op : Operation) (answer : op.Answer) (k' : Kernel φ η χ ω) (events : List (Event η)),
      (∀ pid va write, op ≠ .touch pid va write) →
      op.perform.run k = .ok (answer, k', events) → ∀ pid va,
        (∀ e e', k.processes.entryAt? pid va = some e →
          k'.processes.entryAt? pid va = some e' →
            e'.frame = e.frame ∧ e'.flags.writable = e.flags.writable ∧
            e'.flags.dirty = e.flags.dirty ∧
            (e'.flags.accessed = true → e.flags.accessed = true) ∧
            (e.flags.accessed = true → e'.flags.accessed = false → op.RunsOut answer)) ∧
        ∀ e', k.processes.entryAt? pid va = none → k'.processes.entryAt? pid va = some e' →
          e'.flags.accessed = false ∧ e'.flags.dirty = false) ∧
      ∀ pid va write, ∃ k' : Kernel φ η χ ω,
        (Operation.touch pid va write).perform.run k = .ok ((), k', []) ∧
        { k' with processes := k.processes } = k ∧ k'.processes.next = k.processes.next ∧
        (∀ q, (k'.processes.get? q).map (fun p => { p with pageTable := {} }) =
          (k.processes.get? q).map fun p => { p with pageTable := {} }) ∧
        ∀ q x, k'.processes.entryAt? q x =
          if q = pid ∧ x.pageNumber = va.pageNumber then
            (k.processes.entryAt? q x).map fun e =>
              { e with
                flags := { e.flags with accessed := true, dirty := e.flags.dirty || write } }
          else k.processes.entryAt? q x := by
  constructor
  · intro op answer k' events hop hrun pid va
    have hleaves := leaves_of_perform hop hrun pid va
    constructor
    · intro e e' he he'
      rw [he, he'] at hleaves
      cases hleaves with
      | same => exact ⟨rfl, rfl, rfl, id, fun h h' => absurd (h.symm.trans h') (by decide)⟩
      | cooled e hout => exact ⟨rfl, rfl, rfl, (nomatch ·), fun _ _ => hout⟩
    · intro e' he he'
      rw [he, he'] at hleaves
      cases hleaves with
      | fresh frame writable => exact ⟨rfl, rfl⟩
  · intro pid va write
    refine ⟨_, rfl, rfl, rfl, fun q => ?_, fun q x => ?_⟩
    · rw [Processes.get?_modify]
      split
      · rw [Option.map_map]
        rfl
      · rfl
    · exact Processes.entryAt?_modifyPage k.processes pid va (·.touched write)

/-- A page is written to, and then a second frame is asked for where there is only one. The mark of
the access is gone, the mark of the write is not. -/
theorem marks_set_by_use_alone_of_one_frame :
    ∃ (k k' : Kernel MemoryFileSystem FileHandle BufferConsole ScriptedHost)
      (events events' : List (Event FileHandle)) (answer : Except KernelError PhysAddr)
      (e e' : PageEntry),
      (performAll [.spawn "init", .mapPage ⟨1⟩ (.ofNat 0x1000) true,
        .touch ⟨1⟩ (.ofNat 0x1000) true]).run (boot ⟨1, .clock⟩ {} {} {}).1 =
          .ok ((), k, events) ∧
      (Operation.mapPage ⟨1⟩ (.ofNat 0x2000) true).perform.run k = .ok (answer, k', events') ∧
      k.processes.entryAt? ⟨1⟩ (.ofNat 0x1000) = some e ∧
      k'.processes.entryAt? ⟨1⟩ (.ofNat 0x1000) = some e' ∧
      e.flags.accessed = true ∧ e'.flags.accessed = false ∧ e'.flags.dirty = e.flags.dirty ∧
      (Operation.mapPage ⟨1⟩ (.ofNat 0x2000) true).RunsOut answer := by
  -- the entry before and after, computed at once
  have hanswers : ((do
      performAll [.spawn "init", .mapPage ⟨1⟩ (.ofNat 0x1000) true,
        .touch ⟨1⟩ (.ofNat 0x1000) true]
      let k ← get
      let _ ← (Operation.mapPage ⟨1⟩ (.ofNat 0x2000) true).perform
      let k' ← get
      return ((k.processes.entryAt? ⟨1⟩ (.ofNat 0x1000)).map (·.flags.accessed),
        (k'.processes.entryAt? ⟨1⟩ (.ofNat 0x1000)).map (·.flags.accessed)) :
        KernelM MemoryFileSystem FileHandle BufferConsole ScriptedHost _).run
      (boot ⟨1, .clock⟩ {} {} {}).1).map Prod.fst = .ok (some true, some false) := by
    decide +kernel
  obtain ⟨_, _, hrun⟩ := exists_run_eq hanswers
  obtain ⟨_, k, events, _, hr, hrun, _⟩ := run_bind_eq_ok.mp hrun
  rw [run_get_bind] at hrun
  obtain ⟨answer, k', events', _, hmap, hrun, _⟩ := run_bind_eq_ok.mp hrun
  rw [run_get_bind] at hrun
  simp only [run_pure, Except.ok.injEq, Prod.mk.injEq] at hrun
  obtain ⟨⟨hbefore, hafter⟩, rfl, _⟩ := hrun
  obtain ⟨e, he, haccessed⟩ := Option.map_eq_some_iff.mp hbefore
  obtain ⟨e', he', hcleared⟩ := Option.map_eq_some_iff.mp hafter
  obtain ⟨-, -, hdirty, -, hout⟩ :=
    ((marks_set_by_use_alone k).1 _ answer _ events' (fun _ _ _ h => by cases h) hmap ⟨1⟩
      (.ofNat 0x1000)).1 e e' he he'
  exact ⟨k, _, events, events', answer, e, e', hr, hmap, he, he', haccessed, hcleared, hdirty,
    hout haccessed hcleared⟩

end Kernel

end TeachingKernel
