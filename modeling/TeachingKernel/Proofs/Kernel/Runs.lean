import TeachingKernel.FileSystem.InMemory
import TeachingKernel.Host.Scripted
import TeachingKernel.Proofs.Kernel.Operations

/-!
# Runs of the kernel

Whatever is asked of the kernel, and in whatever order, its page tables, its ledger and its
processes agree. Frames may be shared along the way, and processes that have exited be forgotten.
-/

namespace TeachingKernel.Kernel

open KernelM FrameLedger

inductive Operation where
  | spawn (name : String)
  | mapPage (pid : Pid) (va : VirtAddr) (writable : Bool)
  | unmapPage (pid : Pid) (va : VirtAddr)
  | copyTo (pid : Pid) (va : VirtAddr) (bytes : Bytes)
  | copyFrom (pid : Pid) (va : VirtAddr) (dst : Bytes)
  | touch (pid : Pid) (va : VirtAddr) (write : Bool)
  | tick (ticks : Nat)
  | terminate (pid : Pid) (status : Int32)
  | trap (pid : Pid) (registers : Registers)

namespace Operation

def Answer : Operation → Type
  | spawn _ => Pid
  | mapPage .. => Except KernelError PhysAddr
  | unmapPage .. => Except KernelError Release
  | copyTo .. => Except KernelError Unit
  | copyFrom .. => Bytes × Except KernelError Unit
  | touch .. => Unit
  | tick _ => Unit
  | terminate .. => Verdict
  | trap .. => Verdict × Registers

variable {φ η χ ω : Type} [FileSystem φ η] [Console χ] [Host ω]

def perform : (op : Operation) → KernelM φ η χ ω op.Answer
  | spawn name => Kernel.spawn name
  | mapPage pid va writable => Kernel.mapPage pid va writable
  | unmapPage pid va => Kernel.unmapPage pid va
  | copyTo pid va bytes => Kernel.copyTo pid va bytes
  | copyFrom pid va dst => Kernel.copyFrom pid va dst
  | touch pid va write => Kernel.touch pid va write
  | tick ticks => Kernel.tick ticks
  | terminate pid status => Kernel.terminate pid status
  | trap pid registers => Kernel.trap pid registers

/-- A page that is taken out is named by its start. -/
def NamesPages : Operation → Prop
  | unmapPage _ va => va.isAligned = true
  | _ => True

end Operation

variable {φ η χ ω : Type} {k k' : Kernel φ η χ ω} {es : List (Nat × Loan)}

/-- A process with an exit status does not run. -/
theorem state?_ne_running {pid : Pid} (h : (k.exitStatus? pid).isSome = true) :
    k.processes.state? pid ≠ some .running := by
  intro hc
  obtain ⟨p, hp, hs⟩ := Option.map_eq_some_iff.mp hc
  rw [exitStatus?, hp, Option.bind_some, UserProcess.exitStatus?, hs] at h
  contradiction

variable [FileSystem φ η] [Host ω]

/-- The end of a process resets it, or it was over before. -/
theorem Coherent.alters_terminate (h : Coherent k es) {named : Prop} {pid : Pid} {status : Int32}
    {verdict : Verdict} {events : List (Event η)}
    (hrun : (Kernel.terminate pid status).run k = .ok (verdict, k', events)) :
    ∃ es', k'.frames.Keeps es' ∧ Alters k k' es es' named := by
  obtain ⟨_, _, es', hrun', hk, _, hcases⟩ := terminate_cases h pid status
  cases hrun'.symm.trans hrun
  rcases hcases with ⟨_, rfl, rfl⟩ | ⟨_, hr⟩
  · exact ⟨_, hk, .same ⟨.refl _, fun _ _ => Iff.rfl⟩⟩
  · exact ⟨es', hk, .resets hr⟩

variable [Console χ]

/-- One operation takes one of the four ways. -/
theorem Coherent.alters (h : Coherent k es) {op : Operation} {answer : op.Answer}
    {events : List (Event η)} (hrun : op.perform.run k = .ok (answer, k', events)) :
    ∃ es', k'.frames.Keeps es' ∧ Alters k k' es es' op.NamesPages := by
  have hsteady : Steady k k' → ∃ es', k'.frames.Keeps es' ∧ Alters k k' es es' op.NamesPages :=
    fun hs => ⟨es, hs.2 es h.keeps, .same (hs.sameHoldings es)⟩
  cases op with
  | spawn name =>
    obtain ⟨hframes, _, hr⟩ := of_run_spawn h hrun
    exact ⟨es, hframes ▸ h.keeps, .resets hr⟩
  | mapPage pid va writable =>
    obtain ⟨_, _, _, es', hrun', hk, _, hcases⟩ := mapPage_cases h pid va writable
    cases hrun'.symm.trans hrun
    rcases hcases with ⟨_, hs⟩ | ⟨_, _, hg, _⟩
    · exact ⟨es', hk, .same hs⟩
    · exact ⟨es', hk, .gains hg⟩
  | unmapPage pid va =>
    obtain ⟨_, _, _, es', hrun', hk, _, hcases⟩ := unmapPage_cases h pid va
    cases hrun'.symm.trans hrun
    rcases hcases with ⟨_, rfl, rfl, _⟩ | ⟨_, _, _, hl⟩
    · exact ⟨_, hk, .same ⟨.refl _, fun _ _ => Iff.rfl⟩⟩
    · exact ⟨es', hk, .loses hl id⟩
  | copyTo pid va bytes => exact hsteady (within_copyTo pid va bytes hrun).1
  | copyFrom pid va dst => exact hsteady (within_copyFrom pid va dst hrun).1
  | touch pid va write => exact hsteady (steady_touch k pid va write hrun).1
  | tick ticks => exact hsteady (steady_tick k ticks hrun).1
  | terminate pid status => exact h.alters_terminate hrun
  | trap pid registers =>
    obtain ⟨verdict, registers'⟩ := answer
    rcases trap_cases (R := Steady) pid hrun with
      ⟨_, hs, _⟩ | ⟨middle, status, _, _, hs, _, _, hterm⟩
    · exact hsteady hs
    · obtain ⟨_, _, es', hrun', hk, _, hcases⟩ := terminate_cases (hs.coherent h) pid status
      cases hrun'.symm.trans hterm
      rcases hcases with ⟨_, rfl, rfl⟩ | ⟨_, hr⟩
      · exact hsteady hs
      · exact ⟨es', hk, .resets (hr.of_sameHoldings (hs.sameHoldings es))⟩

/-! ## Runs -/

inductive Change where
  | operation (op : Operation)
  /-- A frame is shared with a running process, in the ledger and in its page table. -/
  | share (frame : PhysAddr) (pid : Pid) (va : VirtAddr) (writable : Bool)
  /-- A process that has exited is forgotten. -/
  | reap (pid : Pid)

namespace Change

inductive Happens : Change → Kernel φ η χ ω → Kernel φ η χ ω → Prop
  | operation {op : Operation} {k k' : Kernel φ η χ ω} {answer : op.Answer}
      {events : List (Event η)} (h : op.perform.run k = .ok (answer, k', events)) :
      Happens (.operation op) k k'
  | share {frame : PhysAddr} {pid : Pid} {va : VirtAddr} {writable : Bool}
      {k middle k' : Kernel φ η χ ω} {before after : List (Event η)}
      (hp : (k.processes.running? pid).isSome = true)
      (hshare : (shareFrame frame ⟨pid, va⟩).run k = .ok (.ok (), middle, before))
      (hmap : (mapFrame pid va frame writable).run middle = .ok (.ok (), k', after)) :
      Happens (.share frame pid va writable) k k'
  | reap {pid : Pid} {k k' : Kernel φ η χ ω} {answer : Option (UserProcess η)}
      {events : List (Event η)} (hp : (k.exitStatus? pid).isSome = true)
      (h : (Kernel.reap pid).run k = .ok (answer, k', events)) : Happens (.reap pid) k k'

def NamesPages : Change → Prop
  | operation op => op.NamesPages
  | _ => True

end Change

inductive Run : Kernel φ η χ ω → List Change → Kernel φ η χ ω → Prop
  | nil (k : Kernel φ η χ ω) : Run k [] k
  | cons {k middle k' : Kernel φ η χ ω} {change : Change} {changes : List Change}
      (h : change.Happens k middle) (hr : Run middle changes k') : Run k (change :: changes) k'

/-- One change takes one of the four ways. -/
theorem Coherent.alters_of_happens (h : Coherent k es) {change : Change}
    (hc : change.Happens k k') :
    ∃ es', k'.frames.Keeps es' ∧ Alters k k' es es' change.NamesPages := by
  cases hc with
  | operation hrun => exact h.alters hrun
  | share hp hshare hmap =>
    obtain ⟨es', hk, hg⟩ :=
      of_run_share h.keeps (k.processes.running?_isSome_iff.mp hp) hshare hmap
    exact ⟨es', hk, .gains hg⟩
  | reap hp hrun =>
    obtain ⟨hframes, hr⟩ := of_run_reap h (state?_ne_running hp) hrun
    exact ⟨es, hframes ▸ h.keeps, .resets hr⟩

/-- One change. -/
theorem Coherent.happens (h : Coherent k es) {change : Change} (hc : change.Happens k k') :
    ∃ es', Coherent k' es' ∧ (change.NamesPages → Matched k es → Matched k' es') := by
  obtain ⟨es', hk, ha⟩ := h.alters_of_happens hc
  exact ⟨es', ha.coherent h hk, ha.matched⟩

/-- Any number of changes. -/
theorem Coherent.run (h : Coherent k es) {changes : List Change} (hr : Run k changes k') :
    ∃ es', Coherent k' es' ∧
      ((∀ change ∈ changes, change.NamesPages) → Matched k es → Matched k' es') := by
  induction hr generalizing es with
  | nil => exact ⟨es, h, fun _ => id⟩
  | cons hc _ ih =>
    obtain ⟨es₁, h₁, hm₁⟩ := h.happens hc
    obtain ⟨es', h', hm'⟩ := ih h₁
    refine ⟨es', h', fun hall hm => hm' (fun change hmem => hall change (.tail _ hmem)) ?_⟩
    exact hm₁ (hall _ (.head _)) hm

/-- After every run the page tables, the ledger and the processes agree: no page stands on a frame
that is not lent, only running processes hold frames, and if pages were only ever taken out by their
start, no frame is lent without a page. -/
theorem coherent_after_run (config : Config) (files : φ) (console : χ) (host : ω)
    (hfits : poolBase + config.frames * pageSize ≤ addressBound) {changes : List Change}
    (hr : Run (boot config files console host).1 changes k) :
    ∃ es, k.frames.loans.entries = .ok es ∧
      (∀ pid va frame writable, k.processes.mapping? pid va = some (frame, writable) →
        Lends es frame ⟨pid, va.pageStart⟩ ∧ k.frames.pool.inUse frame = true) ∧
      (∀ frame holder, Lends es frame holder →
        (k.processes.running? holder.pid).isSome = true) ∧
      ((∀ pid, k.processes.running? pid = none) → k.frames.pool.free = k.frames.pool.total) ∧
      ((∀ change ∈ changes, change.NamesPages) → ∀ frame holder, Lends es frame holder →
        ∃ writable, k.processes.mapping? holder.pid holder.vaddr = some (frame, writable)) := by
  have hboot : Coherent (boot config files console host : Kernel φ η χ ω × List (Event η)).1 [] :=
    coherent_boot config files console host hfits
  obtain ⟨es, h, hm⟩ := hboot.run hr
  refine ⟨es, h.keeps.ring.entries, ?_, ?_, ?_, ?_⟩
  · intro pid va frame writable hmap
    have hl := h.backed pid va frame writable hmap
    exact ⟨hl, h.keeps.inUse_of_lends hl⟩
  · intro frame holder hl
    exact k.processes.running?_isSome_iff.mpr (h.running frame holder hl)
  · intro hnone
    apply h.keeps.free_eq_total
    intro frame holder hl
    exact k.processes.running?_eq_none_iff.mp (hnone holder.pid) (h.running frame holder hl)
  · intro hall frame holder hl
    exact (hm hall (fun _ _ hc => absurd hc not_lends_nil) frame holder hl).2

/-- A page is mapped, its frame shared with a second page, and the first page taken out. -/
theorem coherent_of_shared_page :
    poolBase + 2 * pageSize ≤ addressBound ∧
      ∃ (k : Kernel MemoryFileSystem FileHandle BufferConsole ScriptedHost)
        (es : List (Nat × Loan)),
        Run (boot ⟨2, .clock⟩ {} {} {}).1
          [.operation (.spawn "init"), .operation (.mapPage ⟨1⟩ (.ofNat 0x1000) true),
            .share (.ofNat poolBase) ⟨1⟩ (.ofNat 0x2000) false,
            .operation (.unmapPage ⟨1⟩ (.ofNat 0x1000))] k ∧
        k.frames.loans.entries = .ok es ∧
        (∀ pid va frame writable, k.processes.mapping? pid va = some (frame, writable) →
          Lends es frame ⟨pid, va.pageStart⟩ ∧ k.frames.pool.inUse frame = true) ∧
        ∀ frame holder, Lends es frame holder →
          ∃ writable, k.processes.mapping? holder.pid holder.vaddr = some (frame, writable) := by
  have hfits : poolBase + 2 * pageSize ≤ addressBound := by decide
  -- the answers of the whole run, computed at once
  have hanswers : ((do
      let _ ← (Operation.spawn "init").perform
      let _ ← (Operation.mapPage ⟨1⟩ (.ofNat 0x1000) true).perform
      let k ← get
      let shared ← shareFrame (.ofNat poolBase) ⟨⟨1⟩, .ofNat 0x2000⟩
      let mapped ← mapFrame ⟨1⟩ (.ofNat 0x2000) (.ofNat poolBase) false
      let _ ← (Operation.unmapPage ⟨1⟩ (.ofNat 0x1000)).perform
      return ((k.processes.running? ⟨1⟩).isSome, shared, mapped) :
        KernelM MemoryFileSystem FileHandle BufferConsole ScriptedHost _).run
      (boot ⟨2, .clock⟩ {} {} {}).1).map Prod.fst = .ok (true, .ok (), .ok ()) := by
    decide +kernel
  obtain ⟨k, _, hrun⟩ := exists_run_eq hanswers
  obtain ⟨_, _, _, _, hspawn, hrun, _⟩ := run_bind_eq_ok.mp hrun
  obtain ⟨_, _, _, _, hmapPage, hrun, _⟩ := run_bind_eq_ok.mp hrun
  rw [run_get_bind] at hrun
  obtain ⟨_, _, _, _, hshare, hrun, _⟩ := run_bind_eq_ok.mp hrun
  obtain ⟨_, _, _, _, hmap, hrun, _⟩ := run_bind_eq_ok.mp hrun
  obtain ⟨_, last, _, _, hunmap, hrun, _⟩ := run_bind_eq_ok.mp hrun
  simp only [run_pure, Except.ok.injEq, Prod.mk.injEq] at hrun
  obtain ⟨⟨hp, rfl, rfl⟩, rfl, _⟩ := hrun
  have hr := Run.cons (.operation hspawn) (.cons (.operation hmapPage)
    (.cons (.share hp hshare hmap) (.cons (.operation hunmap) (.nil _))))
  obtain ⟨es, hes, hbacked, _, _, hmatched⟩ := coherent_after_run ⟨2, .clock⟩ _ _ _ hfits hr
  refine ⟨hfits, last, es, hr, hes, hbacked, hmatched ?_⟩
  simp only [List.forall_mem_cons, Change.NamesPages, Operation.NamesPages, true_and]
  exact ⟨by decide, by simp⟩

end TeachingKernel.Kernel
